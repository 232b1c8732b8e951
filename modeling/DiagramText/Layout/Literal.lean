import DiagramText.Block.Layout
import DiagramText.Escape.Quoted
import DiagramText.Escape.Unquoted
import DiagramText.Keyword
import DiagramText.Tree.Node

/-!
# The layout of strings, paths and edges

Every string is written in the context of the place where it stands.  The
segments of a key path are written as keys, whatever the path is part of.  A path
therefore has one document and not one for each context, and the same holds of
the substitutions and imports that name something by a path: inside a key and
inside a value they are written alike.

A string without quotes has one form if it is a single text, and is written piece
by piece if it has substitutions.  A string that consists of empty texts has no
piece to write and counts as the empty text.  Texts that are empty are passed
over, and the first thing that is written opens the string.
-/

namespace DiagramText

/-- Whether a piece is an empty text. -/
def Piece.isEmpty : Piece → Bool
  | .text content => content.isEmpty
  | .substitution _ => false

/-- The one text that a row of pieces comes to, if it is a single text or has
only empty texts. -/
def Piece.wholeText? : List Piece → Option String
  | [.text content] => some content
  | pieces => if pieces.all Piece.isEmpty then some "" else none

mutual

/-- The document of a string in a context. -/
def StringLit.toDoc (ctx : Context) : StringLit → Doc
  | .unquoted pieces _ =>
      match Piece.wholeText? pieces with
      | some content => .ofString (Escape.unquoted ctx (Keyword.canonical content))
      | none => Doc.concat (Piece.docs (Escape.unquotedPiece ctx) true pieces)
  | .doubleQuoted pieces _ =>
      Doc.surround (.ofString "\"")
        (Doc.concat (Piece.docs (fun _ => Escape.doubleQuoted ctx) true pieces)) (.ofString "\"")
  | .singleQuoted content _ =>
      Doc.surround (.ofString "'") (.ofString (Escape.singleQuoted content)) (.ofString "'")
  | .block content => content.toDoc

/-- The documents of the pieces of a string.  `escape` writes a text, and is told
whether the text opens the string. -/
def Piece.docs (escape : Bool → String → String) : Bool → List Piece → List Doc
  | _, [] => []
  | opening, .text content :: rest =>
      if content.isEmpty then Piece.docs escape opening rest
      else .ofString (escape opening content) :: Piece.docs escape false rest
  | _, .substitution reference :: rest => reference.toDoc :: Piece.docs escape false rest

/-- The document of a substitution. -/
def Substitution.toDoc : Substitution → Doc
  | ⟨spread, path, _⟩ =>
      Doc.concat
        ((if spread then [.ofString "..."] else []) ++
          [.ofString "$\x7b", path.toDoc, .ofString "\x7d"])

/-- The document of a key path: its segments, with dots between. -/
def KeyPath.toDoc : KeyPath → Doc
  | ⟨segments, _⟩ => Doc.join (.ofString ".") (StringLit.segmentDocs segments)

/-- The documents of the segments of a key path. -/
def StringLit.segmentDocs : List StringLit → List Doc
  | [] => []
  | segment :: rest => segment.toDoc .key :: StringLit.segmentDocs rest

end

/-- The segments of a key path are written one by one, as keys. -/
theorem StringLit.segmentDocs_eq_map (segments : List StringLit) :
    StringLit.segmentDocs segments = segments.map (StringLit.toDoc .key) := by
  induction segments with
  | nil => rfl
  | cons segment rest ih => rw [StringLit.segmentDocs, ih, List.map_cons]

/-- The document of a scalar in a value. -/
def Scalar.toDoc : Scalar → Doc
  | .null _ => .ofString "null"
  | .suspension suspend _ => .ofString (if suspend then "suspend" else "unsuspend")
  | .boolean value _ => .ofString (if value then "true" else "false")
  | .number raw _ => .ofString raw
  | .string content => content.toDoc .value

/-- The document of an import. -/
def Import.toDoc (file : Import) : Doc :=
  Doc.concat
    ((if file.spread then [.ofString "..."] else []) ++
      [.ofString "@", .ofString file.directory, file.path.toDoc])

namespace Edge

/-- The arrow between the ends of an edge.  A side without a head is a hyphen, and
a hyphen keeps two heads apart. -/
def arrow (e : Edge) : String :=
  if e.sourceArrow.isEmpty then
    if e.targetArrow.isEmpty then "--" else "-" ++ e.targetArrow
  else if e.targetArrow.isEmpty then e.sourceArrow ++ "-"
  else e.sourceArrow ++ "-" ++ e.targetArrow

/-- The source of an edge and the space after it. -/
def sourceDocs (e : Edge) : List Doc :=
  match e.source with
  | none => []
  | some path => [path.toDoc, .ofString " "]

/-- The arrow of an edge and its target. -/
def arrowDoc (e : Edge) : Doc :=
  match e.target with
  | none => Doc.concat [.ofString e.arrow]
  | some path => Doc.concat [.ofString e.arrow, .ofString " ", path.toDoc]

/-- The document of an edge on its own. -/
def toDoc (e : Edge) : Doc := Doc.concat (e.sourceDocs ++ [e.arrowDoc])

/-- The document of a chain of edges.  Each edge starts where the one before it
ends, so only the first source is written. -/
def chainDoc : List Edge → Doc
  | [] => .nil
  | first :: rest =>
      Doc.concat
        (first.sourceDocs ++ [first.arrowDoc] ++
          rest.flatMap fun e => [.ofString " ", e.arrowDoc])

end Edge

/-- The document of the index of an edge. -/
def EdgeIndex.toDoc (i : EdgeIndex) : Doc :=
  match i.index with
  | none => .ofString "[*]"
  | some n => .ofString ("[" ++ toString n ++ "]")

end DiagramText
