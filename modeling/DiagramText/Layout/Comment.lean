import DiagramText.Doc.Lines
import DiagramText.Tree.Node

/-!
# The layout of comments

A comment of the `#` kind has a mark on each line; consecutive comment lines of a
source are one comment.  A comment of the other kind stands on one line if it did
so in the source, and a comment that stands in no source does so if its text has
only one line.
-/

namespace DiagramText

namespace Comment

/-- The three double quotes at either end of a block comment. -/
def fence : String := "\"\"\""

/-- A line of a `#` comment. -/
def markedLine (line : String) : String := if line.isEmpty then "#" else "# " ++ line

/-- Whether a block comment is laid out on one line. -/
def isInline (c : Comment) : Bool :=
  if c.span.isUnset then !Text.hasNewline c.text else c.span.isOneLine

/-- The document of a comment. -/
def toDoc (c : Comment) : Doc :=
  match c.style with
  | .line => Doc.join .hardLine ((Text.lines c.text).map fun line => .ofString (markedLine line))
  | .block =>
      if c.isInline then .ofString (fence ++ " " ++ c.text ++ " " ++ fence)
      else
        Doc.concat
          ([.ofString fence] ++ Doc.onNewLines c.text ++ [.hardLine, .ofString fence])

/-- The mark does not break the line. -/
theorem newline_notMem_markedLine {line : String} (h : '\n' ∉ line.toList) :
    '\n' ∉ (markedLine line).toList := by
  rw [markedLine]
  split
  · decide +kernel
  · rw [String.toList_append, List.mem_append, not_or]
    exact ⟨by decide +kernel, h⟩

end Comment

end DiagramText
