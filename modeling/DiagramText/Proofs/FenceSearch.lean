import DiagramText.Block.Fence
import Mathlib.Logic.Basic
import Mathlib.Order.Bounds.Defs

/-!
# The fence is the shortest one

The quote of a block is made longer until neither of its fences occurs in the text.  This
file says how often that happens and what comes of it.

* `Search` is the search as a relation: from a quote it goes on to the next longer one as
  long as the quote collides with the text, and the number of its extensions is counted.
  The relation has no bound built in.  That every search ends is a theorem
  (`search_fenceChars`), and that it ends early is another (`Search.length_le`).
* `Clear` says what the search looks for, in terms of the text alone.

## Why the first clear quote is the shortest

Clearness is not monotone.  The quote `ab` is clear of the text `abb|`, but its extension
`abb` is not.  So a search that skipped a length could miss the shortest quote.  This one
does not skip: all quotes on its way are the first quote with copies of **one** character
behind it (`Search.result_eq`), because an extension does not change the last character,
and it has seen each of them collide but the last (`Search.not_clear`).
-/

namespace DiagramText
namespace Block

/-- A quote whose fences do not occur in the text. -/
def Clear (content quote : List Char) : Prop :=
  ¬ delimiter :: quote <:+: content ∧ ¬ quote ++ [delimiter] <:+: content

theorem collides_eq_true_iff (content quote : List Char) :
    collides content quote = true ↔ ¬ Clear content quote := by
  rw [collides, Bool.or_eq_true, Text.occursIn_iff, Text.occursIn_iff, Clear,
    not_and_or, not_not, not_not]

theorem collides_eq_false_iff (content quote : List Char) :
    collides content quote = false ↔ Clear content quote := by
  rw [← Bool.not_eq_true, collides_eq_true_iff, not_not]

/-! ## Extensions of a quote -/

/-- The character that an extension repeats. -/
def filler (quote : List Char) : Char := quote.getLastD delimiter

/-- A quote with `n` copies of its last character behind it. -/
def extended (quote : List Char) (n : Nat) : List Char :=
  quote ++ List.replicate n (filler quote)

/-- An extension ends in the character that it repeats.  So the next extension repeats the
same one, also if the quote was empty at first. -/
theorem filler_extend (quote : List Char) : filler (extend quote) = filler quote := by
  simp [filler, extend]

@[simp] theorem extended_zero (quote : List Char) : extended quote 0 = quote := by
  simp [extended]

/-- One extension, and then `n` more. -/
theorem extended_extend (quote : List Char) (n : Nat) :
    extended (extend quote) n = extended quote (n + 1) := by
  rw [extended, extended, filler_extend, List.replicate_succ, extend, List.append_assoc]
  rfl

/-! ## The search and its steps -/

/-- `Search content quote n result`: the search for a quote that is clear of the text
starts at `quote` and stops at `result` after `n` extensions. -/
inductive Search (content : List Char) : List Char → Nat → List Char → Prop
  | stop {quote : List Char} (h : collides content quote = false) : Search content quote 0 quote
  | step {quote result : List Char} {n : Nat} (h : collides content quote = true)
      (rest : Search content (extend quote) n result) : Search content quote (n + 1) result

/-- Every search ends, and the fence is where it ends. -/
theorem search_fenceChars (content quote : List Char) :
    ∃ n, Search content quote n (fenceChars content quote) := by
  fun_induction fenceChars content quote with
  | case1 quote h ih =>
      obtain ⟨n, hn⟩ := ih
      exact ⟨n + 1, .step h hn⟩
  | case2 quote h => exact ⟨0, .stop (by simpa using h)⟩

namespace Search

variable {content quote result : List Char} {n : Nat}

/-- Each extension adds a character, and a quote as long as the text does not collide. -/
theorem length_le (h : Search content quote n result) :
    n ≤ content.length - quote.length := by
  induction h with
  | stop h => exact Nat.zero_le _
  | step h rest ih =>
      have hlt := length_lt_of_collides h
      rw [length_extend] at ih
      omega

/-- The result is the first quote with as many characters more as there were
extensions. -/
theorem result_eq (h : Search content quote n result) : result = extended quote n := by
  induction h with
  | stop h => rw [extended_zero]
  | step h rest ih => rw [ih, extended_extend]

/-- The search stops at a clear quote. -/
theorem clear (h : Search content quote n result) : Clear content result := by
  induction h with
  | stop h => exact (collides_eq_false_iff _ _).mp h
  | step h rest ih => exact ih

/-- The search has passed every shorter extension, and none of them was clear. -/
theorem not_clear (h : Search content quote n result) {m : Nat} (hm : m < n) :
    ¬ Clear content (extended quote m) := by
  induction h generalizing m with
  | stop h => exact absurd hm (Nat.not_lt_zero m)
  | step h rest ih =>
      cases m with
      | zero =>
          rw [extended_zero]
          exact (collides_eq_true_iff _ _).mp h
      | succ m =>
          rw [← extended_extend]
          exact ih (Nat.lt_of_succ_lt_succ hm)

/-- The number of extensions is the least one that leads to a clear quote. -/
theorem isLeast (h : Search content quote n result) :
    IsLeast {m | Clear content (extended quote m)} n := by
  constructor
  · show Clear content (extended quote n)
    rw [← h.result_eq]
    exact h.clear
  · intro m hm
    exact Nat.le_of_not_lt fun hlt => h.not_clear hlt hm

end Search

/-- **The fence is the shortest clear extension.**  The search for a fence ends, after at
most as many extensions as the text is longer than the quote.  Its result is the quote
followed by copies of its last character, or of the pipe if the quote is empty, and there
are as few of them as possible: with any smaller number one of the fences would occur in
the text. -/
theorem fence_eq_shortest_clear (content quote : String) :
    ∃ n, Search content.toList quote.toList n (fence content quote).toList ∧
      n ≤ content.length - quote.length ∧
      (fence content quote).toList = extended quote.toList n ∧
      IsLeast {m | Clear content.toList (extended quote.toList m)} n := by
  obtain ⟨n, hsearch⟩ := search_fenceChars content.toList quote.toList
  rw [← toList_fence] at hsearch
  refine ⟨n, hsearch, ?_, hsearch.result_eq, hsearch.isLeast⟩
  rw [← String.length_toList, ← String.length_toList]
  exact hsearch.length_le

end Block
end DiagramText
