/-!
# Positions and spans in a source file

Every piece of a diagram remembers where it was written.  The layout of printed
text is decided by two questions about such a record and by nothing else: does
the piece stand on one line, and was it written down at all?  A tree that was
built by a program rather than read from a file has no place in any source, and
it carries the *unset* span, whose six numbers are all zero.

"Unset" is a property of the value and not a separate mark.  A piece that really
starts and ends at the first byte of a file is unset as well; it is empty, so
nothing is lost by that.
-/

namespace DiagramText

/-- A place in a source file: the line and the column on it, both counted from
zero, and the offset in bytes from the start of the file. -/
structure Position where
  line : Nat := 0
  column : Nat := 0
  byte : Nat := 0
  deriving DecidableEq

namespace Position

/-- Positions are ordered by line, then by column, then by byte. -/
def compare (a b : Position) : Ordering :=
  ((Ord.compare a.line b.line).then (Ord.compare a.column b.column)).then
    (Ord.compare a.byte b.byte)

end Position

/-- The stretch of source from one position to another.  Nothing asks `stop` to
lie after `start`. -/
structure Span where
  start : Position := {}
  stop : Position := {}
  deriving DecidableEq

namespace Span

/-- The span of a piece that stands in no source file. -/
def unset : Span := {}

/-- The span from the start of one line to the start of another. -/
def ofLines (first last : Nat) : Span := ⟨{ line := first }, { line := last }⟩

/-- The span at the start of one line. -/
def ofLine (n : Nat) : Span := ofLines n n

/-- Whether the span starts and ends on the same line. -/
def isOneLine (s : Span) : Bool := s.start.line == s.stop.line

/-- Whether the span is that of a piece outside every source file. -/
def isUnset (s : Span) : Bool := s == unset

@[simp] theorem isOneLine_unset : unset.isOneLine = true := rfl

@[simp] theorem isOneLine_ofLines (first last : Nat) :
    (ofLines first last).isOneLine = (first == last) := rfl

@[simp] theorem isOneLine_ofLine (n : Nat) : (ofLine n).isOneLine = true := by
  simp [ofLine]

end Span

end DiagramText
