/-!
# Indentation

How deep a line is indented is counted in levels, and an `Indentation` says what
a level looks like: a number of spaces, or one tab.  Levels add up, so the text
of a sum of levels is the texts of its terms one after the other
(`chars_add`); a width of zero is allowed, and then no line is indented at all.

The number of characters in front of a line is a natural number here and has no
bound.  A program that prints multiplies level and width as machine integers, and
the two agree as long as the product fits into one.  An indentation for which it
does not would be longer than any text in memory.
-/

namespace DiagramText

/-- What a level of indentation looks like. -/
structure Indentation where
  /-- The number of spaces; it is of no account when tabs are used. -/
  width : Nat := 2
  /-- Whether a level is a tab. -/
  useTabs : Bool := false
  deriving DecidableEq

namespace Indentation

/-- The characters in front of a line at the given level.  The product of level
and width is a machine integer where a program prints, and unbounded here. -/
def chars (i : Indentation) (level : Nat) : List Char :=
  if i.useTabs then List.replicate level '\t' else List.replicate (level * i.width) ' '

/-- The text in front of a line at the given level. -/
def text (i : Indentation) (level : Nat) : String := String.ofList (i.chars level)

@[simp] theorem toList_text (i : Indentation) (level : Nat) :
    (i.text level).toList = i.chars level := by
  simp [text]

@[simp] theorem chars_zero (i : Indentation) : i.chars 0 = [] := by
  simp [chars]

@[simp] theorem text_zero (i : Indentation) : i.text 0 = "" := by
  simp [text]

/-- Levels of indentation add up. -/
theorem chars_add (i : Indentation) (m n : Nat) : i.chars (m + n) = i.chars m ++ i.chars n := by
  unfold chars
  split
  · exact List.replicate_append_replicate.symm
  · rw [Nat.add_mul, List.replicate_append_replicate]

/-- An indentation is made of spaces or of tabs. -/
theorem forall_mem_chars (i : Indentation) (level : Nat) {P : Char → Prop} (hspace : P ' ')
    (htab : P '\t') : ∀ c ∈ i.chars level, P c := by
  unfold chars
  split
  · exact List.forall_mem_replicate.mpr (.inr htab)
  · exact List.forall_mem_replicate.mpr (.inr hspace)

/-- An indentation holds no line feed. -/
theorem newline_notMem_chars (i : Indentation) (level : Nat) : '\n' ∉ i.chars level :=
  fun h => i.forall_mem_chars level (P := (· ≠ '\n')) (by decide) (by decide) '\n' h rfl

end Indentation

end DiagramText
