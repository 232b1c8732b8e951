import DiagramText.Layout.Node

/-!
# The tree with its reserved words in lower case

A bare string that is a reserved word is printed in lower case, however it was
written.  `canonical` puts it in lower case in the tree, wherever it stands: as a
segment of a key path, as a value or an element, inside a substitution or an import.
Strings with quotes are not touched, nor are bare strings with several pieces, since
these are not printed in lower case either.

The change does not touch what a tree is built of besides strings, so every node
keeps its place in the source (`Node.span_canonical`), comments stay comments, and a
map without entries has none afterwards.  And it is invisible in the document of a
string (`StringLit.toDoc_canonical`), because the printed spelling of a printed
spelling is that spelling.  Paths, substitutions, imports and edges are put together
from the documents of strings, and keep theirs as well; so does what a key prints
besides its value (`Key.docOf_canonical`).

Nothing is said here about maps and arrays.  Their layout depends on more than the
documents of their entries.
-/

namespace DiagramText

/-! ## The change -/

/-- Pieces that are a single text take the spelling in which it is printed. -/
def Piece.respelled : List Piece → List Piece
  | [.text content] => [.text (Keyword.canonical content)]
  | pieces => pieces

mutual

/-- A string with its reserved words in lower case. -/
def StringLit.canonical : StringLit → StringLit
  | .unquoted pieces span => .unquoted (Piece.respelled (Piece.canonicals pieces)) span
  | .doubleQuoted pieces span => .doubleQuoted (Piece.canonicals pieces) span
  | .singleQuoted content span => .singleQuoted content span
  | .block content => .block content

/-- Pieces of a string, with the reserved words of their substitutions in lower
case. -/
def Piece.canonicals : List Piece → List Piece
  | [] => []
  | .text content :: rest => .text content :: Piece.canonicals rest
  | .substitution reference :: rest => .substitution reference.canonical :: Piece.canonicals rest

/-- A substitution with its reserved words in lower case. -/
def Substitution.canonical : Substitution → Substitution
  | ⟨spread, path, span⟩ => ⟨spread, path.canonical, span⟩

/-- A key path with its reserved words in lower case. -/
def KeyPath.canonical : KeyPath → KeyPath
  | ⟨segments, span⟩ => ⟨StringLit.canonicals segments, span⟩

/-- The segments of a key path with their reserved words in lower case. -/
def StringLit.canonicals : List StringLit → List StringLit
  | [] => []
  | segment :: rest => segment.canonical :: StringLit.canonicals rest

end

/-- A scalar with its reserved words in lower case. -/
def Scalar.canonical : Scalar → Scalar
  | .string content => .string content.canonical
  | other => other

/-- An import with its reserved words in lower case. -/
def Import.canonical (file : Import) : Import := { file with path := file.path.canonical }

/-- An edge with its reserved words in lower case. -/
def Edge.canonical (e : Edge) : Edge :=
  { e with source := e.source.map KeyPath.canonical, target := e.target.map KeyPath.canonical }

mutual

/-- A value with its reserved words in lower case. -/
def Value.canonical : Value → Value
  | .scalar content => .scalar content.canonical
  | .imported file => .imported file.canonical
  | .array content => .array content.canonical
  | .map content => .map content.canonical

/-- An array with its reserved words in lower case. -/
def ArrayLit.canonical : ArrayLit → ArrayLit
  | ⟨nodes, span⟩ => ⟨Node.canonicals nodes, span⟩

/-- A map with its reserved words in lower case. -/
def MapLit.canonical : MapLit → MapLit
  | ⟨nodes, span, isFile⟩ => ⟨Node.canonicals nodes, span, isFile⟩

/-- A key with its reserved words in lower case. -/
def Key.canonical : Key → Key
  | ⟨marker, path, edges, index, edgePath, primary, value, span⟩ =>
      ⟨marker, path.map KeyPath.canonical, edges.map Edge.canonical, index,
        edgePath.map KeyPath.canonical, primary.map Scalar.canonical, Value.canonical? value, span⟩

/-- The value of a key with its reserved words in lower case. -/
def Value.canonical? : Option Value → Option Value
  | none => none
  | some value => some value.canonical

/-- A node with its reserved words in lower case. -/
def Node.canonical : Node → Node
  | .comment content => .comment content
  | .value content => .value content.canonical
  | .substitution content => .substitution content.canonical
  | .key content => .key content.canonical
  | .keyPath content => .keyPath content.canonical
  | .edge content => .edge content.canonical
  | .edgeIndex content => .edgeIndex content

/-- The nodes of a list with their reserved words in lower case. -/
def Node.canonicals : List Node → List Node
  | [] => []
  | node :: rest => node.canonical :: Node.canonicals rest

end

/-- A bare string that is a single text takes the spelling in which it is printed. -/
theorem StringLit.canonical_single (content : String) (span : Span) :
    StringLit.canonical (.unquoted [.text content] span) =
      .unquoted [.text (Keyword.canonical content)] span := by
  rw [StringLit.canonical, Piece.canonicals, Piece.canonicals, Piece.respelled]

theorem KeyPath.canonical_single (segment : StringLit) (span : Span) :
    KeyPath.canonical ⟨[segment], span⟩ = ⟨[segment.canonical], span⟩ := by
  rw [KeyPath.canonical, StringLit.canonicals, StringLit.canonicals]

theorem Node.canonicals_eq_map (nodes : List Node) :
    Node.canonicals nodes = nodes.map Node.canonical := by
  induction nodes with
  | nil => rw [Node.canonicals, List.map_nil]
  | cons node rest ih => rw [Node.canonicals, ih, List.map_cons]

/-! ## The document of a string keeps -/

namespace Piece

theorem isEmpty_canonicals (pieces : List Piece) :
    (canonicals pieces).all isEmpty = pieces.all isEmpty := by
  induction pieces with
  | nil => rw [canonicals]
  | cons piece rest ih =>
      cases piece with
      | text content => rw [canonicals, List.all_cons, List.all_cons, ih]
      | substitution reference => rw [canonicals, List.all_cons, List.all_cons, ih]; rfl

/-- Substitutions do not count as text, so a change inside them leaves the one text
of the pieces. -/
theorem wholeText?_canonicals (pieces : List Piece) :
    wholeText? (canonicals pieces) = wholeText? pieces := by
  have hempty := isEmpty_canonicals pieces
  match pieces with
  | [] => rw [canonicals]
  | [.text content] => rw [canonicals, canonicals]
  | .text content :: next :: rest =>
      cases next <;> simp only [canonicals, wholeText?] at hempty ⊢ <;> rw [hempty]
  | .substitution reference :: rest =>
      simp only [canonicals, wholeText?] at hempty ⊢
      rw [hempty]

/-- The one text of the pieces takes the spelling in which it is printed. -/
theorem wholeText?_respelled (pieces : List Piece) :
    wholeText? (respelled pieces) = (wholeText? pieces).map Keyword.canonical := by
  unfold respelled
  split
  · rfl
  · rename_i hsingle
    have hnothing : Keyword.canonical "" = "" := by decide +kernel
    rw [wholeText?]
    · cases pieces.all isEmpty with
      | true => rw [if_pos rfl, Option.map_some, hnothing]
      | false => rfl
    · exact hsingle

theorem respelled_of_wholeText?_eq_none {pieces : List Piece} (h : wholeText? pieces = none) :
    respelled pieces = pieces := by
  unfold respelled
  split
  · exact absurd h (by simp [wholeText?])
  · rfl

end Piece

mutual

/-- Putting reserved words in lower case does not change the document of a string. -/
theorem StringLit.toDoc_canonical (ctx : Context) :
    ∀ s : StringLit, s.canonical.toDoc ctx = s.toDoc ctx
  | .unquoted pieces span => by
      rw [StringLit.canonical, StringLit.toDoc, StringLit.toDoc, Piece.wholeText?_respelled,
        Piece.wholeText?_canonicals]
      cases hwhole : Piece.wholeText? pieces with
      | some content => simp
      | none =>
          have hsame : Piece.wholeText? (Piece.canonicals pieces) = none := by
            rw [Piece.wholeText?_canonicals, hwhole]
          rw [Piece.respelled_of_wholeText?_eq_none hsame]
          show Doc.concat _ = Doc.concat _
          rw [Piece.docs_canonicals _ true pieces]
  | .doubleQuoted pieces span => by
      rw [StringLit.canonical, StringLit.toDoc, StringLit.toDoc, Piece.docs_canonicals _ true pieces]
  | .singleQuoted content span => by rw [StringLit.canonical]
  | .block content => by rw [StringLit.canonical]

theorem Piece.docs_canonicals (escape : Bool → String → String) (opening : Bool) :
    ∀ pieces : List Piece,
      Piece.docs escape opening (Piece.canonicals pieces) = Piece.docs escape opening pieces
  | [] => by rw [Piece.canonicals]
  | .text content :: rest => by
      rw [Piece.canonicals, Piece.docs, Piece.docs, Piece.docs_canonicals escape opening rest,
        Piece.docs_canonicals escape false rest]
  | .substitution reference :: rest => by
      rw [Piece.canonicals, Piece.docs, Piece.docs, Substitution.toDoc_canonical reference,
        Piece.docs_canonicals escape false rest]

theorem Substitution.toDoc_canonical : ∀ s : Substitution, s.canonical.toDoc = s.toDoc
  | ⟨spread, path, span⟩ => by
      rw [Substitution.canonical, Substitution.toDoc, Substitution.toDoc, KeyPath.toDoc_canonical path]

theorem KeyPath.toDoc_canonical : ∀ path : KeyPath, path.canonical.toDoc = path.toDoc
  | ⟨segments, span⟩ => by
      rw [KeyPath.canonical, KeyPath.toDoc, KeyPath.toDoc, StringLit.segmentDocs_canonicals segments]

theorem StringLit.segmentDocs_canonicals :
    ∀ segments : List StringLit,
      StringLit.segmentDocs (StringLit.canonicals segments) = StringLit.segmentDocs segments
  | [] => by rw [StringLit.canonicals]
  | segment :: rest => by
      rw [StringLit.canonicals, StringLit.segmentDocs, StringLit.segmentDocs,
        StringLit.toDoc_canonical .key segment, StringLit.segmentDocs_canonicals rest]

end

/-! ## The documents of the other leaves keep -/

theorem Scalar.toDoc_canonical (s : Scalar) : s.canonical.toDoc = s.toDoc := by
  cases s with
  | string content =>
      rw [Scalar.canonical, Scalar.toDoc, Scalar.toDoc, StringLit.toDoc_canonical]
  | _ => rfl

theorem Import.toDoc_canonical (file : Import) : file.canonical.toDoc = file.toDoc := by
  rw [Import.toDoc, Import.toDoc, Import.canonical, KeyPath.toDoc_canonical]

namespace Edge

theorem sourceDocs_canonical (e : Edge) : e.canonical.sourceDocs = e.sourceDocs := by
  rw [sourceDocs, sourceDocs, canonical]
  cases e.source with
  | none => rfl
  | some path =>
      show [path.canonical.toDoc, _] = _
      rw [KeyPath.toDoc_canonical]

theorem arrowDoc_canonical (e : Edge) : e.canonical.arrowDoc = e.arrowDoc := by
  have harrow : e.canonical.arrow = e.arrow := rfl
  rw [arrowDoc, arrowDoc, harrow, canonical]
  cases e.target with
  | none => rfl
  | some path =>
      show Doc.concat [_, _, path.canonical.toDoc] = _
      rw [KeyPath.toDoc_canonical]

theorem toDoc_canonical (e : Edge) : e.canonical.toDoc = e.toDoc := by
  rw [toDoc, toDoc, sourceDocs_canonical, arrowDoc_canonical]

theorem chainDoc_canonical (edges : List Edge) :
    chainDoc (edges.map canonical) = chainDoc edges := by
  cases edges with
  | nil => rfl
  | cons first rest =>
      rw [List.map_cons, chainDoc, chainDoc, sourceDocs_canonical, arrowDoc_canonical,
        List.flatMap_map]
      simp only [arrowDoc_canonical]

end Edge

namespace Key

variable (marker : Option Marker) (path : Option KeyPath) (edges : List Edge)
  (index : Option EdgeIndex) (edgePath : Option KeyPath)

theorem edgeDocs_canonical :
    edgeDocs (path.map KeyPath.canonical) (edges.map Edge.canonical) index
      (edgePath.map KeyPath.canonical) = edgeDocs path edges index edgePath := by
  rw [edgeDocs, edgeDocs, isScoped, isScoped, List.isEmpty_map, Option.isSome_map,
    Option.isSome_map, Edge.chainDoc_canonical]

theorem subjectDocs_canonical :
    subjectDocs marker (path.map KeyPath.canonical) (edges.map Edge.canonical) index
      (edgePath.map KeyPath.canonical) = subjectDocs marker path edges index edgePath := by
  rw [subjectDocs, subjectDocs, edgeDocs_canonical]
  cases path with
  | none => rfl
  | some path =>
      rw [Option.map_some, Option.toList_some, Option.toList_some, List.map_singleton,
        List.map_singleton, KeyPath.toDoc_canonical]

theorem fieldDocs_canonical (subject : List Doc) :
    fieldDocs subject (edgePath.map KeyPath.canonical) = fieldDocs subject edgePath := by
  cases edgePath with
  | none => rfl
  | some path => rw [Option.map_some, fieldDocs, fieldDocs, KeyPath.toDoc_canonical]

theorem primaryDocs_canonical (primary : Option Scalar) :
    primaryDocs (primary.map Scalar.canonical) = primaryDocs primary := by
  cases primary with
  | none => rfl
  | some content => rw [Option.map_some, primaryDocs, primaryDocs, Scalar.toDoc_canonical]

/-- What a key prints besides its value has the same document. -/
theorem docOf_canonical (primary : Option Scalar) (value : Option Doc) :
    docOf marker (path.map KeyPath.canonical) (edges.map Edge.canonical) index
      (edgePath.map KeyPath.canonical) (primary.map Scalar.canonical) value =
      docOf marker path edges index edgePath primary value := by
  rw [docOf, docOf, subjectDocs_canonical, fieldDocs_canonical, primaryDocs_canonical,
    Option.isSome_map]

end Key

/-! ## What else keeps -/

theorem MapLit.isEmpty_nodes_canonical (m : MapLit) :
    m.canonical.nodes.isEmpty = m.nodes.isEmpty := by
  obtain ⟨nodes, span, isFile⟩ := m
  rw [MapLit.canonical, Node.canonicals_eq_map, List.isEmpty_map]

theorem Value.isEmptyMap_canonical (v : Value) : v.canonical.isEmptyMap = v.isEmptyMap := by
  cases v with
  | map content => rw [Value.canonical]; exact content.isEmpty_nodes_canonical
  | _ => rw [Value.canonical]; rfl

theorem Scalar.span_canonical (s : Scalar) : s.canonical.span = s.span := by
  cases s with
  | string content => cases content <;> rw [Scalar.canonical, StringLit.canonical] <;> rfl
  | _ => rfl

theorem Value.span_canonical (v : Value) : v.canonical.span = v.span := by
  cases v with
  | scalar content => rw [Value.canonical]; exact content.span_canonical
  | imported file => rw [Value.canonical]; rfl
  | array content => cases content; rw [Value.canonical, ArrayLit.canonical]; rfl
  | map content => cases content; rw [Value.canonical, MapLit.canonical]; rfl

/-- The change does not move anything. -/
theorem Node.span_canonical (node : Node) : node.canonical.span = node.span := by
  cases node with
  | comment content => rw [Node.canonical]
  | value content => rw [Node.canonical]; exact content.span_canonical
  | substitution content => cases content; rw [Node.canonical, Substitution.canonical]; rfl
  | key content => cases content; rw [Node.canonical, Key.canonical]; rfl
  | keyPath content => cases content; rw [Node.canonical, KeyPath.canonical]; rfl
  | edge content => rw [Node.canonical]; rfl
  | edgeIndex content => rw [Node.canonical]

theorem Node.isComment_canonical (node : Node) : node.canonical.isComment = node.isComment := by
  cases node <;> rw [Node.canonical] <;> rfl

end DiagramText
