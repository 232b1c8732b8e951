import DiagramText.Text.Occurrence

/-!
# The fence of a block string

A block string stands between pipes, `|md … |`.  Its text is not escaped, so a
pipe in the text could be taken for the end of the block.  To keep the two apart
a *quote* is written next to each pipe: with the quote `` ` `` the block opens
with ``|` `` and ends at `` `| ``.

The quote that the author chose may not be good enough, as when the text was put
together by a program.  `fence` makes it longer until neither the opening nor the
closing fence occurs in the text: the quote repeats its last character, and an
empty quote becomes a pipe.

**The search ends** because a fence that occurs in the text is no longer than the
text, and is one character longer than its quote (`length_lt_of_collides`).
**Its result keeps clear of the text** (`not_collides_fence`).
-/

namespace DiagramText
namespace Block

/-- The character next to which a quote stands. -/
def delimiter : Char := '|'

/-- Whether the opening or the closing fence with this quote occurs in the text. -/
def collides (content quote : List Char) : Bool :=
  Text.occursIn (delimiter :: quote) content || Text.occursIn (quote ++ [delimiter]) content

/-- The quote with its last character once more; an empty quote becomes a pipe. -/
def extend (quote : List Char) : List Char := quote ++ [quote.getLastD delimiter]

@[simp] theorem length_extend (quote : List Char) : (extend quote).length = quote.length + 1 := by
  simp [extend]

/-- A quote that collides with a text is shorter than the text. -/
theorem length_lt_of_collides {content quote : List Char} (h : collides content quote = true) :
    quote.length < content.length := by
  rcases (Bool.or_eq_true _ _).mp h with opening | closing
  · have hle := Text.length_le_of_occursIn opening
    rw [List.length_cons] at hle
    omega
  · have hle := Text.length_le_of_occursIn closing
    rw [List.length_append, List.length_singleton] at hle
    omega

/-- Extends a quote until its fences keep clear of the text. -/
def fenceChars (content quote : List Char) : List Char :=
  if collides content quote then fenceChars content (extend quote) else quote
termination_by content.length - quote.length
decreasing_by
  have hlt := length_lt_of_collides ‹_›
  rw [length_extend]
  omega

/-- The shortest extension of a quote whose fences keep clear of a string. -/
def fence (content quote : String) : String :=
  String.ofList (fenceChars content.toList quote.toList)

@[simp] theorem toList_fence (content quote : String) :
    (fence content quote).toList = fenceChars content.toList quote.toList := by
  simp [fence]

/-- The fences that the search settles on do not occur in the text. -/
theorem not_collides_fenceChars (content quote : List Char) :
    collides content (fenceChars content quote) = false := by
  fun_induction fenceChars content quote with
  | case1 quote h ih => exact ih
  | case2 quote h => simpa using h

/-- The search adds no characters but those of the quote and the pipe. -/
theorem forall_mem_fenceChars {P : Char → Prop} (hdelimiter : P delimiter)
    {content quote : List Char} (hquote : ∀ c ∈ quote, P c) :
    ∀ c ∈ fenceChars content quote, P c := by
  fun_induction fenceChars content quote with
  | case1 quote h ih =>
      refine ih ?_
      rw [extend, List.forall_mem_append, List.forall_mem_singleton, List.getLastD_eq_getLast?]
      refine ⟨hquote, ?_⟩
      cases hlast : quote.getLast? with
      | none => exact hdelimiter
      | some last => exact hquote last (List.mem_of_getLast? hlast)
  | case2 quote h => exact hquote

end Block
end DiagramText
