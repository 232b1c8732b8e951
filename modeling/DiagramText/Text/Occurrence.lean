/-!
# Occurrences of one text in another

`occursIn p s` answers whether `p` stands somewhere in `s` as a contiguous
stretch.  The search compares at every place of `s`, its end included, so the
empty text occurs in every text.  `occursIn_iff` is the whole theory: it
replaces the search by the list predicate `p <:+: s`.
-/

namespace DiagramText
namespace Text

/-- Whether the first text stands somewhere in the second. -/
def occursIn (p : List Char) : List Char → Bool
  | [] => p.isEmpty
  | c :: cs => p.isPrefixOf (c :: cs) || occursIn p cs

/-- The search finds exactly the contiguous stretches. -/
theorem occursIn_iff (p s : List Char) : occursIn p s = true ↔ p <:+: s := by
  induction s with
  | nil => simp [occursIn]
  | cons c cs ih =>
      rw [occursIn, Bool.or_eq_true, List.isPrefixOf_iff_prefix, ih, List.infix_cons_iff]

/-- A text that occurs in another is no longer than it. -/
theorem length_le_of_occursIn {p s : List Char} (h : occursIn p s = true) :
    p.length ≤ s.length :=
  ((occursIn_iff p s).1 h).length_le

end Text
end DiagramText
