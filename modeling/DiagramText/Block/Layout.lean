import DiagramText.Block.Fence
import DiagramText.Doc.Lines
import DiagramText.Text.Blank
import DiagramText.Tree.Literal

/-!
# The layout of block strings

A block string that was read from a source keeps the layout it had there.  One
that stands in no source is laid out over several lines if its text has a line
feed, and the blanks around its text are dropped.

On one line the text stands between single spaces, and an empty text leaves just
one of them.  Over several lines the text is indented by one level more than the
fences, and the closing fence has a line of its own.
-/

namespace DiagramText
namespace BlockString

/-- The text of a block as it is printed. -/
def content (b : BlockString) : String := if b.span.isUnset then Text.trim b.text else b.text

/-- Whether a block is laid out over several lines. -/
def isSpread (b : BlockString) : Bool :=
  if b.span.isUnset then Text.hasNewline b.text else !b.span.isOneLine

/-- The quote that keeps the text of a block apart from its fences. -/
def safeQuote (b : BlockString) : String := Block.fence b.content b.quote

/-- The fence that opens a block, with the language of its text. -/
def openFence (b : BlockString) : String := "|" ++ b.safeQuote ++ b.tag

/-- The fence that ends a block. -/
def closeFence (b : BlockString) : String := b.safeQuote ++ "|"

/-- The document of a block string. -/
def toDoc (b : BlockString) : Doc :=
  let opening := Doc.ofString b.openFence
  let closing := Doc.ofString b.closeFence
  if b.isSpread then
    opening ++ (Doc.concat (Doc.onNewLines b.content)).nest ++ .hardLine ++ closing
  else if b.content.isEmpty then opening ++ .ofString " " ++ closing
  else opening ++ .ofString " " ++ .ofString b.content ++ .ofString " " ++ closing

end BlockString
end DiagramText
