import DiagramText.Doc.Printer
import DiagramText.Layout.Node
import DiagramText.Tree.Quoting

/-!
# The text of a tree

This is the purpose of the library: the canonical text of a diagram, or of a part
of one.  `Node.format` prints a tree, and `KeyPath.format` prints a path whose
segments are given as plain texts, for a message to a user.

Printing never fails.  Only a path without segments has no text, since a key has
to have a name.
-/

namespace DiagramText

/-- The text of a node. -/
def Node.format (i : Indentation) (node : Node) : String := Doc.print i node.toDoc

/-- The text of a node is the meaning of its document. -/
theorem Node.format_eq_render (i : Indentation) (node : Node) :
    node.format i = Doc.render i 0 node.toDoc :=
  Doc.print_eq_render i node.toDoc

namespace KeyPath

/-- Why a path has no text. -/
inductive Error where
  /-- The path has no segments. -/
  | empty
  deriving DecidableEq

/-- What a user is told about a path that has no text. -/
def Error.message : Error → String
  | empty => "key path must have at least one segment"

/-- The path whose segments say the given texts. -/
def ofSegments (segments : List String) : KeyPath :=
  ⟨segments.map StringLit.ofSegment, .unset⟩

/-- The text of a path with the given segments. -/
def format (segments : List String) : Except Error String :=
  if segments.isEmpty then .error .empty
  else .ok ((Node.keyPath (ofSegments segments)).format {})

/-- A path has no text exactly when it has no segments. -/
theorem format_eq_error_iff (segments : List String) (e : Error) :
    format segments = .error e ↔ segments = [] := by
  unfold format
  cases segments with
  | nil => cases e; simp
  | cons segment rest => simp

end KeyPath

end DiagramText
