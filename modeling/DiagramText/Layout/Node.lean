import DiagramText.Layout.Comment
import DiagramText.Layout.Entries
import DiagramText.Layout.Literal

/-!
# The layout of a tree

The document of a node is defined by recursion on the tree.  A map first lays out
its entries and then places them, so the recursion meets every node once, and
what the documents of the entries are put together to is no concern of the
recursion.  Three functions without recursion do that: `ArrayLit.docOf`,
`MapLit.docOf` and `Key.docOf`.

A map or an array stands on one line if it did so in the source.  A whole file
has no brackets, always has one entry per line, and ends with a line break unless
it prints nothing.
-/

namespace DiagramText

/-- The brackets around a list of entries. -/
structure Brackets where
  opening : String
  closing : String
  /-- What stands inside the brackets on either end when they are on one line. -/
  padding : String

namespace Brackets

/-- The braces of a map. -/
def braces : Brackets := ⟨"\x7b", "\x7d", " "⟩

/-- The square brackets of an array. -/
def square : Brackets := ⟨"[", "]", ""⟩

/-- The documents of some entries between brackets. -/
def enclose (b : Brackets) (oneLine : Bool) (parts : List Doc) : Doc :=
  if Doc.allNil parts then .ofString (b.opening ++ b.closing)
  else if oneLine then
    Doc.surround (.ofString (b.opening ++ b.padding)) (Doc.concat parts)
      (.ofString (b.padding ++ b.closing))
  else
    Doc.surround (.ofString b.opening) (Doc.concat parts).nest (.hardLine ++ .ofString b.closing)

end Brackets

/-- The document of an array, from its entries. -/
def ArrayLit.docOf (span : Span) (es : List Entry) : Doc :=
  Brackets.square.enclose span.isOneLine
    ((ArrayLit.arrange span.isOneLine es).flatMap Placed.docs)

namespace MapLit

/-- Whether a map is laid out on one line.  A file never is. -/
def isInline (span : Span) (isFile : Bool) : Bool := !isFile && span.isOneLine

/-- The document of a file, from the documents of its entries. -/
def fileDoc (parts : List Doc) : Doc :=
  if Doc.allNil parts then .nil else Doc.concat parts ++ .hardLine

/-- The document of a map, from its entries. -/
def docOf (span : Span) (isFile : Bool) (es : List Entry) : Doc :=
  let parts := (arrange isFile (isInline span isFile) es).flatMap Placed.docs
  if isFile then fileDoc parts else Brackets.braces.enclose (isInline span isFile) parts

end MapLit

/-! ## Keys -/

/-- The mark in front of a key. -/
def Marker.text : Marker → String
  | filter => "&"
  | negatedFilter => "!&"

namespace Key

/-- Whether the edges of a key stand in parentheses: they start from a path, or
are followed by an index or by the path of a field. -/
def isScoped (path : Option KeyPath) (index : Option EdgeIndex) (edgePath : Option KeyPath) :
    Bool :=
  path.isSome || index.isSome || edgePath.isSome

/-- The documents of the edges of a key. -/
def edgeDocs (path : Option KeyPath) (edges : List Edge) (index : Option EdgeIndex)
    (edgePath : Option KeyPath) : List Doc :=
  if edges.isEmpty then []
  else
    (if path.isSome then [.ofString "."] else []) ++
      (if isScoped path index edgePath then
        [.ofString "(", Edge.chainDoc edges, .ofString ")"]
      else [Edge.chainDoc edges])

/-- The documents of a key up to the path of a field of its edges. -/
def subjectDocs (marker : Option Marker) (path : Option KeyPath) (edges : List Edge)
    (index : Option EdgeIndex) (edgePath : Option KeyPath) : List Doc :=
  (marker.toList.map fun m => .ofString m.text) ++ path.toList.map KeyPath.toDoc ++
    edgeDocs path edges index edgePath ++ index.toList.map EdgeIndex.toDoc

/-- The path of a field of the edges, with a dot in front of it unless nothing
stands there. -/
def fieldDocs (subject : List Doc) (edgePath : Option KeyPath) : List Doc :=
  match edgePath with
  | none => []
  | some path => (if Doc.allNil subject then [] else [.ofString "."]) ++ [path.toDoc]

/-- The short value of a key. -/
def primaryDocs (primary : Option Scalar) : List Doc :=
  match primary with
  | none => []
  | some content => [.ofString ": ", content.toDoc]

/-- The value of a key, after a colon or after the short value. -/
def valueDocs (hasPrimary : Bool) (value : Option Doc) : List Doc :=
  match value with
  | none => []
  | some doc => [.ofString (if hasPrimary then " " else ": "), doc]

/-- The document of a key, from the document of the value that it prints. -/
def docOf (marker : Option Marker) (path : Option KeyPath) (edges : List Edge)
    (index : Option EdgeIndex) (edgePath : Option KeyPath) (primary : Option Scalar)
    (value : Option Doc) : Doc :=
  let subject := subjectDocs marker path edges index edgePath
  Doc.concat
    (subject ++ fieldDocs subject edgePath ++ primaryDocs primary ++
      valueDocs primary.isSome value)

end Key

/-- Whether a value is a map without entries.  A key does not print such a value. -/
def Value.isEmptyMap : Value → Bool
  | .map content => content.nodes.isEmpty
  | _ => false

/-! ## The recursion -/

mutual

/-- The document of a value. -/
def Value.toDoc : Value → Doc
  | .scalar content => content.toDoc
  | .imported file => file.toDoc
  | .array content => content.toDoc
  | .map content => content.toDoc

/-- The document of an array. -/
def ArrayLit.toDoc : ArrayLit → Doc
  | ⟨nodes, span⟩ => ArrayLit.docOf span (Node.entries nodes)

/-- The document of a map. -/
def MapLit.toDoc : MapLit → Doc
  | ⟨nodes, span, isFile⟩ => MapLit.docOf span isFile (Node.entries nodes)

/-- The document of a key. -/
def Key.toDoc : Key → Doc
  | ⟨marker, path, edges, index, edgePath, primary, value, _⟩ =>
      Key.docOf marker path edges index edgePath primary (Value.printed? value)

/-- The document of the value that a key prints. -/
def Value.printed? : Option Value → Option Doc
  | none => none
  | some value => if value.isEmptyMap then none else some value.toDoc

/-- The document of a node. -/
def Node.toDoc : Node → Doc
  | .comment content => content.toDoc
  | .value content => content.toDoc
  | .substitution content => content.toDoc
  | .key content => content.toDoc
  | .keyPath content => content.toDoc
  | .edge content => content.toDoc
  | .edgeIndex content => content.toDoc

/-- The nodes of a list, each with its document. -/
def Node.entries : List Node → List Entry
  | [] => []
  | node :: rest => ⟨node, node.toDoc⟩ :: Node.entries rest

end

/-- The entries of a list are its nodes with their documents. -/
theorem Node.entries_eq_map (nodes : List Node) :
    Node.entries nodes = nodes.map fun node => ⟨node, node.toDoc⟩ := by
  induction nodes with
  | nil => simp [Node.entries]
  | cons node rest ih => rw [Node.entries, ih, List.map_cons]

/-- The entries of a list are its nodes, in their order. -/
@[simp] theorem Node.map_node_entries (nodes : List Node) :
    (Node.entries nodes).map Entry.node = nodes := by
  simp [Node.entries_eq_map, Function.comp_def]

end DiagramText
