import DiagramText.Doc.Basic
import DiagramText.Text.Lines

/-!
# A text over several lines

Block comments and block strings hold a text that is laid out as it is: its lines
go below each other, each at the current indentation.  A line without characters
gets a bare line, so that no printed line ends in indentation.
-/

namespace DiagramText
namespace Doc

/-- A line break and the line below it.  An empty line is a bare line. -/
def onNewLine (line : String) : List Doc :=
  if line.isEmpty then [.bareLine] else [.hardLine, .ofString line]

/-- The lines of a text, each on a line of its own. -/
def onNewLines (s : String) : List Doc := (Text.lines s).flatMap onNewLine

@[simp] theorem onNewLine_empty : onNewLine "" = [.bareLine] := rfl

theorem onNewLine_of_ne {line : String} (h : line ≠ "") :
    onNewLine line = [.hardLine, .ofString line] := by
  have h' : line.isEmpty = false := by simpa using h
  simp [onNewLine, h']

end Doc
end DiagramText
