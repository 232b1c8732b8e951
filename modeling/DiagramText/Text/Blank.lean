/-!
# Blank characters and trimming

A character is *blank* when it has the Unicode property `White_Space`.  The
property is a short list of code point ranges, and the table below is that list;
the control characters of ASCII that it leaves out (a file separator, for
instance) are not blank here.

`trim` removes the blank characters at both ends of a text.  Three facts about it
are used: it keeps a contiguous stretch of the text (`trimChars_infix`), what it
keeps has no blank at the end (`isBlank_last_trimChars`), and a text with no blank
at either end is left alone (`trimChars_of_ends`).
-/

namespace DiagramText
namespace Text

/-- The code points of the property `White_Space`, as ranges with both ends
included. -/
def blankRanges : List (Nat × Nat) :=
  [(0x0009, 0x000D), (0x0020, 0x0020), (0x0085, 0x0085), (0x00A0, 0x00A0), (0x1680, 0x1680),
    (0x2000, 0x200A), (0x2028, 0x2029), (0x202F, 0x202F), (0x205F, 0x205F), (0x3000, 0x3000)]

/-- Whether a character is blank. -/
def isBlank (c : Char) : Bool :=
  blankRanges.any fun r => r.1 ≤ c.toNat && c.toNat ≤ r.2

/-- Removes the blank characters at the start. -/
def trimStart (cs : List Char) : List Char := cs.dropWhile isBlank

/-- Removes the blank characters at the end. -/
def trimEnd (cs : List Char) : List Char := (trimStart cs.reverse).reverse

/-- Removes the blank characters at both ends. -/
def trimChars (cs : List Char) : List Char := trimEnd (trimStart cs)

/-- The text without the blank characters at its two ends. -/
def trim (s : String) : String := String.ofList (trimChars s.toList)

@[simp] theorem trimStart_nil : trimStart [] = [] := rfl

@[simp] theorem trimEnd_nil : trimEnd [] = [] := rfl

@[simp] theorem trimChars_nil : trimChars [] = [] := rfl

@[simp] theorem toList_trim (s : String) : (trim s).toList = trimChars s.toList := by
  simp [trim]

/-- Trimming at the start keeps a tail of the text. -/
theorem trimStart_suffix (cs : List Char) : trimStart cs <:+ cs :=
  List.dropWhile_suffix _

/-- Trimming at the end keeps an initial stretch of the text. -/
theorem trimEnd_prefixOf (cs : List Char) : trimEnd cs <+: cs := by
  have h := trimStart_suffix cs.reverse
  simpa [trimEnd] using List.reverse_prefix.2 h

/-- Trimming keeps a contiguous stretch of the text. -/
theorem trimChars_infix (cs : List Char) : trimChars cs <:+: cs :=
  (trimEnd_prefixOf _).isInfix.trans (trimStart_suffix cs).isInfix

/-- A text whose first character is not blank has nothing to trim at the start. -/
theorem trimStart_of_head {c : Char} {cs : List Char} (h : isBlank c = false) :
    trimStart (c :: cs) = c :: cs := by
  simp [trimStart, h]

/-- What is left after trimming at the start does not open with a blank. -/
theorem isBlank_head_trimStart {cs : List Char} {c : Char}
    (h : (trimStart cs).head? = some c) : isBlank c = false := by
  induction cs with
  | nil => simp at h
  | cons d ds ih =>
      by_cases hd : isBlank d = true
      · exact ih (by simpa [trimStart, hd] using h)
      · have hd' : isBlank d = false := by simpa using hd
        rw [trimStart_of_head hd'] at h
        simpa using (Option.some.inj h) ▸ hd'

/-- What is left after trimming does not end with a blank. -/
theorem isBlank_last_trimChars {cs : List Char} {c : Char}
    (h : (trimChars cs).getLast? = some c) : isBlank c = false := by
  apply @isBlank_head_trimStart (trimStart cs).reverse
  simpa [trimChars, trimEnd] using h

/-- A text whose first character, if it has one, is not blank has nothing to trim
at the start. -/
theorem trimStart_of_head? {cs : List Char} (h : ∀ c, cs.head? = some c → isBlank c = false) :
    trimStart cs = cs := by
  cases cs with
  | nil => rfl
  | cons c cs => exact trimStart_of_head (h c rfl)

/-- A text with no blank at either end is left alone. -/
theorem trimChars_of_ends {cs : List Char} (first : ∀ c, cs.head? = some c → isBlank c = false)
    (last : ∀ c, cs.getLast? = some c → isBlank c = false) : trimChars cs = cs := by
  have hend : trimStart cs.reverse = cs.reverse :=
    trimStart_of_head? fun c hc => last c (by simpa using hc)
  rw [trimChars, trimStart_of_head? first, trimEnd, hend, List.reverse_reverse]

end Text
end DiagramText
