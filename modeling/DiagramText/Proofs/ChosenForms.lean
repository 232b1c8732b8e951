import DiagramText.Proofs.KeyText
import DiagramText.Proofs.Reading.Path
import DiagramText.Proofs.Reading.Tree

/-!
# Plain texts as values

A program that has a text and wants a value lets `StringLit.ofText` choose between the three
forms of a string on one line.  The choice is right if the text can be told from what is
printed in the end, and here choosing and printing are done by different hands: the one picks
the form, the other spells the form that was picked.

The three forms do not get into each other's way.  What stands between quotes starts with a
quote, and a text that has a quote in it is never written bare.  Within each form the text can
be read back (`Reading.string_ofText`), with one exception.

**Reserved words lose their case.**  A reserved word needs no quotes in any mixture of cases
(`Keyword.admitsBare_of_isReserved`), so it is written bare; and bare reserved words are printed
in lower case.  The two mixtures `Label` and `label` are therefore printed alike, and no other
two texts are (`StringLit.format_ofText_eq_iff`).  The segments of a key path have a rule
against this, `StringLit.ofSegment`, which puts a reserved word with a capital letter between
quotes.
-/

namespace DiagramText

/-! ## Reserved words are written bare -/

namespace Text

/-- Whether a character may occur in a reserved word: a small letter, a digit or a hyphen. -/
def isWordChar (c : Char) : Bool :=
  c == '-' || ('0' ≤ c && c ≤ '9') || ('a' ≤ c && c ≤ 'z')

/-- No blank is such a character, and none becomes one in lower case. -/
theorem not_isWordChar_toLower_of_isBlank {c : Char} (h : isBlank c = true) :
    isWordChar c.toLower = false := by
  simp only [isBlank, blankRanges, List.any_cons, List.any_nil, Bool.or_eq_true,
    Bool.and_eq_true, decide_eq_true_eq, Bool.or_false] at h
  have hcase : c.toLower = c := by
    refine dif_neg ?_
    rintro ⟨hlow, hhigh⟩
    have hlow' : 65 ≤ c.toNat := hlow
    have hhigh' : c.toNat ≤ 90 := hhigh
    omega
  rw [hcase, ← Bool.not_eq_true]
  simp only [isWordChar, Bool.or_eq_true, Bool.and_eq_true, beq_iff_eq, decide_eq_true_eq]
  rintro ((rfl | ⟨hlow, hhigh⟩) | ⟨hlow, hhigh⟩)
  · exact absurd h (by decide)
  · have hlow' : 48 ≤ c.toNat := hlow
    have hhigh' : c.toNat ≤ 57 := hhigh
    omega
  · have hlow' : 97 ≤ c.toNat := hlow
    have hhigh' : c.toNat ≤ 122 := hhigh
    omega

end Text

/-- In a value a character is active wherever it stands, or nowhere. -/
theorem Context.anyActive_value (opening : Bool) (cs : List Char) :
    Context.value.anyActive opening cs = cs.any Context.value.isSpecial := by
  induction cs generalizing opening with
  | nil => rfl
  | cons c cs ih => rw [anyActive, isActive_value, ih, List.any_cons]

namespace Keyword

variable {s : String} {c : Char}

/-- The reserved words are made of small letters, digits and hyphens. -/
theorem isWordChar_toLower_of_isReserved (h : isReserved s = true) (hc : c ∈ s.toList) :
    Text.isWordChar c.toLower = true := by
  have hwords : reserved.all (fun word => word.toList.all Text.isWordChar) = true := by
    decide +kernel
  have hword := List.all_eq_true.mp hwords s.toLower ((isReserved_iff s).mp h)
  rw [Text.toList_toLower] at hword
  exact List.all_eq_true.mp hword c.toLower (List.mem_map_of_mem hc)

/-- No spelling of a reserved word has a character that is active in a value. -/
theorem not_isSpecial_of_isReserved (h : isReserved s = true) (hc : c ∈ s.toList) :
    Context.value.isSpecial c = false := by
  have hspecials : Context.value.specials.all (fun d => !Text.isWordChar d.toLower) = true := by
    decide
  rw [← Bool.not_eq_true]
  intro hspecial
  rw [Context.isSpecial, List.contains_iff_mem] at hspecial
  have hother := List.all_eq_true.mp hspecials c hspecial
  rw [isWordChar_toLower_of_isReserved h hc] at hother
  exact absurd hother (by decide)

/-- No spelling of a reserved word has a blank in it. -/
theorem not_isBlank_of_isReserved (h : isReserved s = true) (hc : c ∈ s.toList) :
    Text.isBlank c = false := by
  rw [← Bool.not_eq_true]
  intro hblank
  have hother := Text.not_isWordChar_toLower_of_isBlank hblank
  rw [isWordChar_toLower_of_isReserved h hc] at hother
  exact absurd hother (by decide)

/-- **A reserved word needs no quotes in a value**, whatever mixture of cases it is in. -/
theorem admitsBare_of_isReserved (h : isReserved s = true) :
    Context.value.admitsBare s = true := by
  rw [Context.admitsBare_iff]
  refine ⟨?_, ?_, ?_⟩
  · have hempty : s ≠ "" := by
      rintro rfl
      exact absurd h (by decide +kernel)
    have hnull : Text.isNull s = false := by
      rw [← Bool.not_eq_true]
      intro hnull
      rw [isReserved, (Text.isNull_iff s).mp hnull] at h
      exact absurd h (by decide +kernel)
    exact (Context.value.isReadAsOther_eq_false_iff s).mpr ⟨hempty, by simp [hnull]⟩
  · rw [Context.anyActive_value, List.any_eq_false]
    intro c hc
    rw [not_isSpecial_of_isReserved h hc]
    exact Bool.false_ne_true
  · apply String.toList_injective
    rw [Text.toList_trim]
    refine Text.trimChars_of_ends ?_ ?_
    · intro c hc
      exact not_isBlank_of_isReserved h (List.mem_of_mem_head? hc)
    · intro c hc
      exact not_isBlank_of_isReserved h (List.mem_of_mem_getLast? hc)

/-- Two texts have the same printed case exactly if they are the same, or are one reserved word
in two mixtures of cases. -/
theorem canonical_eq_canonical_iff (s t : String) :
    canonical s = canonical t ↔ s = t ∨ (isReserved s = true ∧ s.toLower = t.toLower) := by
  constructor
  · intro h
    cases hs : isReserved s with
    | false =>
        cases ht : isReserved t with
        | false =>
            rw [canonical_of_not_isReserved hs, canonical_of_not_isReserved ht] at h
            exact Or.inl h
        | true =>
            rw [canonical_of_not_isReserved hs, canonical_of_isReserved ht] at h
            rw [h, isReserved_toLower, ht] at hs
            exact absurd hs (by decide)
    | true =>
        cases ht : isReserved t with
        | false =>
            rw [canonical_of_isReserved hs, canonical_of_not_isReserved ht] at h
            rw [← h, isReserved_toLower, hs] at ht
            exact absurd ht (by decide)
        | true =>
            rw [canonical_of_isReserved hs, canonical_of_isReserved ht] at h
            exact Or.inr ⟨rfl, h⟩
  · rintro (rfl | ⟨hs, hlower⟩)
    · rfl
    · have ht : isReserved t = true := by
        rw [← isReserved_toLower, ← hlower, isReserved_toLower, hs]
      rw [canonical_of_isReserved hs, canonical_of_isReserved ht, hlower]

end Keyword

/-! ## Reading the chosen form -/

namespace StringLit

/-- The three forms that a value is written in, and what is known of its text then. -/
theorem ofText_value_cases (s : String) :
    ofText .value s = .doubleQuoted [.text s] .unset ∨
      (ofText .value s = .singleQuoted s .unset ∧ '\n' ∉ s.toList) ∨
      (ofText .value s = .bare s ∧ s ≠ "" ∧ Text.isNull s = false) := by
  rcases ofText_cases .value s with hform | hform | ⟨hform, hbare⟩
  · exact Or.inl hform
  · exact Or.inr (Or.inl hform)
  · have hother := ((Context.value.admitsBare_iff s).mp hbare).1
    obtain ⟨hne, hnull⟩ := (Context.value.isReadAsOther_eq_false_iff s).mp hother
    exact Or.inr (Or.inr ⟨hform, hne, by simpa using hnull⟩)

/-- The case of a reserved word does not show. -/
theorem chars_ofText_canonical (i : Indentation) (n : Nat) (s : String) :
    Doc.chars i n ((ofText .value (Keyword.canonical s)).toDoc .value) =
      Doc.chars i n ((ofText .value s).toDoc .value) := by
  cases hs : Keyword.isReserved s with
  | false => rw [Keyword.canonical_of_not_isReserved hs]
  | true =>
      have hlower : Keyword.isReserved (Keyword.canonical s) = true := by
        rw [Keyword.canonical_of_isReserved hs, Keyword.isReserved_toLower, hs]
      rw [ofText, if_pos (Keyword.admitsBare_of_isReserved hlower), ofText,
        if_pos (Keyword.admitsBare_of_isReserved hs), bare, bare, chars_unquoted, chars_unquoted,
        Keyword.canonical_canonical]

end StringLit

/-- **The chosen form is read back**, with reserved words in lower case. -/
theorem Reading.string_ofText (i : Indentation) (n : Nat) (s : String) :
    Reading.string .value (Doc.chars i n ((StringLit.ofText .value s).toDoc .value)) =
      some (StringLit.ofText .value (Keyword.canonical s), []) := by
  rw [← StringLit.chars_ofText_canonical]
  have hcase : Keyword.canonical (Keyword.canonical s) = Keyword.canonical s :=
    Keyword.canonical_canonical s
  generalize Keyword.canonical s = word at hcase ⊢
  have hend : endsBare .value [] = true := rfl
  rcases StringLit.ofText_value_cases word with hform | ⟨hform, hnewline⟩ | ⟨hform, hne, hnull⟩
  · rw [hform]
    simpa using string_append i n (.doubleQuoted word) hend
  · rw [hform]
    simpa using string_append i n (.singleQuoted hnewline) hend
  · rw [hform, StringLit.bare, StringLit.chars_unquoted, hcase, Escape.toList_unquoted hne hnull]
    simpa using string_unquotedChars hne hend

/-- **Two texts are printed alike as values only if they are the same**, or if they are one
reserved word in two mixtures of cases. -/
theorem StringLit.format_ofText_eq_iff (i : Indentation) (s t : String) :
    (Node.ofString (ofText .value s)).format i = (Node.ofString (ofText .value t)).format i ↔
      s = t ∨ (Keyword.isReserved s = true ∧ s.toLower = t.toLower) := by
  rw [← Keyword.canonical_eq_canonical_iff, Node.format_eq_iff_chars, Node.ofString_eq,
    Node.ofString_eq, Node.toDoc, Node.toDoc, Value.toDoc, Value.toDoc, Scalar.toDoc, Scalar.toDoc]
  constructor
  · intro h
    have hread := congrArg (Reading.string .value) h
    rw [Reading.string_ofText, Reading.string_ofText, Option.some.injEq, Prod.mk.injEq] at hread
    simpa using congrArg plainText hread.1
  · intro h
    rw [← chars_ofText_canonical i 0 s, h, chars_ofText_canonical]

example : (Node.ofString (.ofText .value "Label")).format {} =
    (Node.ofString (.ofText .value "label")).format {} := by cbv

end DiagramText
