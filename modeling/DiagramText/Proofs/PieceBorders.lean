import DiagramText.Format
import DiagramText.Proofs.BareSpelling
import DiagramText.Proofs.DocText

/-!
# The borders between the pieces of a bare string

A bare string is a row of pieces, texts and substitutions.  Where its text is cut into
pieces has no meaning: `a` followed by `b` says the same as `ab`.  So merging the texts
that stand next to each other, and dropping the empty ones, ought to leave the printed text
as it is.  This file says when it does.

There are two reasons why it may not.

* **The spelling of a hyphen looks ahead, but not across a border.**  In a key the first of
  two hyphens takes a backslash.  If a border separates them, the first hyphen does not see
  the second one.  Such a border is a *seam* (`Escape.seam`), and every seam costs exactly
  one backslash (`Piece.leftOut_spelled_joined`).
* **The rules for whole strings hold for single texts only.**  The word `null` and a reserved
  word with capital letters are not spelled as other texts are, but only if they are one
  piece.  Cut into several pieces, they are spelled letter by letter.

`Node.format_merged_iff` says that there are no other reasons: merging keeps the printed text
exactly if the string has no seam and is no such word cut into pieces.

## How seams are counted

Merging works from left to right with a text that has been collected so far.  When the next
text `b` is added to the collected text `a`, and `c` is the text that follows, the border
between `a` and `b` disappears first and the one between `a ++ b` and `c` later.  The pieces
themselves have the borders between `a` and `b ++ c` and between `b` and `c`.  That both
ways of counting agree, also if `b` is empty, is `Escape.seam_append_left`.
-/

namespace DiagramText

/-! ## Texts with characters left out -/

namespace Text

/-- The first text is the second one with `k` characters left out. -/
structure LeftOut (k : Nat) (short long : List Char) : Prop where
  sublist : short.Sublist long
  length_eq : long.length = short.length + k

namespace LeftOut

variable {j k : Nat} {as bs cs ds : List Char}

theorem refl (as : List Char) : LeftOut 0 as as := ⟨List.Sublist.refl as, rfl⟩

theorem trans (h : LeftOut j as bs) (h' : LeftOut k bs cs) : LeftOut (j + k) as cs where
  sublist := h.sublist.trans h'.sublist
  length_eq := by
    have hab := h.length_eq
    have hbc := h'.length_eq
    omega

theorem append (h : LeftOut j as bs) (h' : LeftOut k cs ds) :
    LeftOut (j + k) (as ++ cs) (bs ++ ds) where
  sublist := h.sublist.append h'.sublist
  length_eq := by
    have hab := h.length_eq
    have hcd := h'.length_eq
    rw [List.length_append, List.length_append]
    omega

theorem append_right (h : LeftOut k as bs) (cs : List Char) :
    LeftOut k (as ++ cs) (bs ++ cs) :=
  h.append (refl cs)

theorem append_left (cs : List Char) (h : LeftOut k as bs) :
    LeftOut k (cs ++ as) (cs ++ bs) := by
  simpa using (refl cs).append h

/-- The two texts are the same exactly if nothing is left out. -/
theorem eq_iff (h : LeftOut k as bs) : bs = as ↔ k = 0 := by
  have hlength := h.length_eq
  constructor
  · intro heq
    rw [heq] at hlength
    omega
  · rintro rfl
    exact (h.sublist.eq_of_length hlength.symm).symm

end LeftOut
end Text

/-! ## Seams -/

namespace Escape

open Text

/-- One if two hyphens of a key meet where the second text is put behind the first one,
and otherwise zero. -/
def seam (ctx : Context) (front back : List Char) : Nat :=
  if ctx = .key ∧ front.getLast? = some '-' ∧ back.head? = some '-' then 1 else 0

@[simp] theorem seam_nil_left (ctx : Context) (back : List Char) : seam ctx [] back = 0 := by
  simp [seam]

@[simp] theorem seam_nil_right (ctx : Context) (front : List Char) : seam ctx front [] = 0 := by
  simp [seam]

@[simp] theorem seam_value (front back : List Char) : seam .value front back = 0 := by
  simp [seam]

/-- The seams of three texts do not depend on which two are put together first. -/
theorem seam_append_left (ctx : Context) (as bs cs : List Char) :
    seam ctx as bs + seam ctx (as ++ bs) cs = seam ctx as (bs ++ cs) + seam ctx bs cs := by
  cases bs with
  | nil => simp
  | cons b bs =>
      have hlast : (as ++ b :: bs).getLast? = (b :: bs).getLast? := by
        rw [List.getLast?_append_of_ne_nil _ (List.cons_ne_nil b bs)]
      rw [seam, seam, seam, seam, hlast, List.cons_append, List.head?_cons, List.head?_cons]

variable {ctx : Context} {opening : Bool} {c : Char} {next : Option Char}

/-- What follows a character makes no difference, unless it is a hyphen of a key. -/
theorem needsBackslash_eq_of_not_hyphens (h : ¬ (ctx = .key ∧ c = '-' ∧ next = some '-')) :
    needsBackslash ctx opening c next = needsBackslash ctx opening c none := by
  cases ctx with
  | value => rfl
  | key =>
      by_cases hc : c = '-'
      · subst hc
        simpa [needsBackslash, isOpener] using h
      · simp [needsBackslash, hc]

/-- A character that does not see what follows it is spelled with a backslash less if it
stands at a seam. -/
theorem leftOut_unquotedChar (ctx : Context) (opening : Bool) (c : Char) (back : List Char) :
    LeftOut (seam ctx [c] back) (unquotedChar ctx opening c none)
      (unquotedChar ctx opening c back.head?) := by
  by_cases h : ctx = .key ∧ c = '-' ∧ back.head? = some '-'
  · obtain ⟨rfl, rfl, hback⟩ := h
    rw [hback, seam, if_pos ⟨rfl, rfl, hback⟩]
    cases opening <;> exact ⟨by decide, rfl⟩
  · have hseam : seam ctx [c] back = 0 := by
      rw [seam, if_neg]
      simpa using h
    have hsame : unquotedChar ctx opening c back.head? = unquotedChar ctx opening c none := by
      rw [unquotedChar, unquotedChar, needsBackslash_eq_of_not_hyphens h]
    rw [hseam, hsame]
    exact LeftOut.refl _

/-- Two texts that are spelled one by one have a backslash less than the text that they
are parts of, if there is a seam between them, and otherwise none. -/
theorem leftOut_unquotedChars_append (ctx : Context) (opening : Bool) (as bs : List Char) :
    LeftOut (seam ctx as bs)
      (unquotedChars ctx opening as ++ unquotedChars ctx (opening && as.isEmpty) bs)
      (unquotedChars ctx opening (as ++ bs)) := by
  induction as generalizing opening with
  | nil => simpa using LeftOut.refl (unquotedChars ctx opening bs)
  | cons a as ih =>
      cases as with
      | nil => simpa using (leftOut_unquotedChar ctx opening a bs).append_right _
      | cons b as => simpa [seam] using (ih false).append_left (unquotedChar ctx opening a (some b))

end Escape

/-! ## Merging -/

namespace Piece

open Text

/-- A text in front of pieces; the empty text is left away. -/
def withText (s : String) (pieces : List Piece) : List Piece :=
  if s.isEmpty then pieces else .text s :: pieces

/-- The pieces without empty texts and with neighbouring texts made one.  The text that
has been collected since the last substitution is passed along. -/
def joined (collected : String) : List Piece → List Piece
  | [] => withText collected []
  | .text s :: rest => joined (collected ++ s) rest
  | .substitution reference :: rest =>
      withText collected (.substitution reference :: joined "" rest)

/-- The pieces of a string with neighbouring texts merged and empty texts removed.  Where
nothing would remain, one of the empty texts is kept. -/
def merged (pieces : List Piece) : List Piece :=
  if (joined "" pieces).isEmpty then pieces.take 1 else joined "" pieces

/-- The text in front of the first substitution. -/
def leadingText : List Piece → List Char
  | .text s :: rest => s.toList ++ leadingText rest
  | _ => []

/-- The number of borders between the texts of a string that separate two hyphens of a
key. -/
def seams (ctx : Context) : List Piece → Nat
  | [] => 0
  | .text s :: rest => Escape.seam ctx s.toList (leadingText rest) + seams ctx rest
  | .substitution _ :: rest => seams ctx rest

@[simp] theorem seams_value (pieces : List Piece) : seams .value pieces = 0 := by
  induction pieces with
  | nil => rfl
  | cons piece rest ih => cases piece <;> simp [seams, ih]

/-! ### How pieces are spelled -/

variable (i : Indentation) (n : Nat) (ctx : Context)

/-- The characters of a row of pieces that are written one by one. -/
def spelled (opening : Bool) (pieces : List Piece) : List Char :=
  Doc.chars i n (Doc.concat (docs (Escape.unquotedPiece ctx) opening pieces))

@[simp] theorem spelled_nil (opening : Bool) : spelled i n ctx opening [] = [] := by
  simp [spelled, docs]

/-- A text is spelled on its own.  It opens what follows if it is empty. -/
theorem spelled_text (opening : Bool) (s : String) (rest : List Piece) :
    spelled i n ctx opening (.text s :: rest) =
      Escape.unquotedChars ctx opening s.toList ++
        spelled i n ctx (opening && s.toList.isEmpty) rest := by
  by_cases hs : s = ""
  · simp [spelled, docs, hs]
  · have hne : s.toList.isEmpty = false := by simpa using hs
    simp [spelled, docs, hs, hne, Doc.chars_concat]

theorem spelled_substitution (opening : Bool) (reference : Substitution) (rest : List Piece) :
    spelled i n ctx opening (.substitution reference :: rest) =
      Doc.chars i n reference.toDoc ++ spelled i n ctx false rest := by
  simp [spelled, docs, Doc.chars_concat]

/-- An empty text that is left away is not missed. -/
theorem spelled_withText (opening : Bool) (s : String) (rest : List Piece) :
    spelled i n ctx opening (withText s rest) =
      Escape.unquotedChars ctx opening s.toList ++
        spelled i n ctx (opening && s.toList.isEmpty) rest := by
  by_cases hs : s = ""
  · simp [withText, hs]
  · simp [withText, hs, spelled_text]

/-- **Every seam costs one backslash.**  Pieces behind a collected text are spelled with as
many backslashes less as there are seams, the one behind the collected text included. -/
theorem leftOut_spelled_joined (opening : Bool) (collected : String) (pieces : List Piece) :
    LeftOut (Escape.seam ctx collected.toList (leadingText pieces) + seams ctx pieces)
      (Escape.unquotedChars ctx opening collected.toList ++
        spelled i n ctx (opening && collected.toList.isEmpty) pieces)
      (spelled i n ctx opening (joined collected pieces)) := by
  induction pieces generalizing opening collected with
  | nil =>
      rw [joined, spelled_withText]
      simpa [leadingText, seams] using LeftOut.refl _
  | cons piece rest ih =>
      cases piece with
      | substitution reference =>
          -- the collected text ends here, and what follows starts anew
          have hrest := ih false ""
          rw [joined, spelled_withText, spelled_substitution, spelled_substitution]
          simpa [leadingText, seams] using
            (hrest.append_left _).append_left (Escape.unquotedChars ctx opening collected.toList)
      | text s =>
          have hfront := Escape.leftOut_unquotedChars_append ctx opening collected.toList s.toList
          have hrest := ih opening (collected ++ s)
          have hempty : (collected.toList ++ s.toList).isEmpty =
              (collected.toList.isEmpty && s.toList.isEmpty) := by
            cases collected.toList <;> rfl
          rw [String.toList_append, hempty, ← Bool.and_assoc] at hrest
          have hboth := (hfront.append_right _).trans hrest
          rw [← Nat.add_assoc, Escape.seam_append_left, Nat.add_assoc, List.append_assoc] at hboth
          rw [joined, spelled_text]
          exact hboth

/-- At the start of a string nothing has been collected. -/
theorem leftOut_spelled (pieces : List Piece) :
    LeftOut (seams ctx pieces) (spelled i n ctx true pieces)
      (spelled i n ctx true (joined "" pieces)) := by
  simpa using leftOut_spelled_joined i n ctx true "" pieces

/-! ### Strings without substitutions -/

/-- Whether a piece is a text. -/
def isText : Piece → Bool
  | .text _ => true
  | .substitution _ => false

variable {pieces : List Piece}

/-- Without substitutions all texts are collected into one. -/
theorem joined_of_all_isText (h : pieces.all isText = true) (collected : String) :
    joined collected pieces = withText (collected ++ plainTexts pieces) [] := by
  induction pieces generalizing collected with
  | nil => rw [joined, plainTexts, String.append_empty]
  | cons piece rest ih =>
      cases piece with
      | substitution reference => simp [isText] at h
      | text s =>
          rw [List.all_cons, Bool.and_eq_true] at h
          rw [joined, ih h.2, plainTexts, String.append_assoc]

/-- A substitution is kept when texts are merged. -/
theorem not_all_isText_joined (h : pieces.all isText = false) (collected : String) :
    (joined collected pieces).all isText = false := by
  induction pieces generalizing collected with
  | nil => simp at h
  | cons piece rest ih =>
      cases piece with
      | substitution reference =>
          rw [joined, withText]
          split <;> simp [isText]
      | text s =>
          rw [joined]
          exact ih (by simpa [isText] using h) _

/-- What is written for texts is decoded to the texts. -/
theorem decoded_spelled_of_all_isText (h : pieces.all isText = true) (opening : Bool) :
    Escape.decoded (spelled i n ctx opening pieces) = (plainTexts pieces).toList := by
  induction pieces generalizing opening with
  | nil =>
      rw [spelled_nil, plainTexts]
      rfl
  | cons piece rest ih =>
      cases piece with
      | substitution reference => simp [isText] at h
      | text s =>
          rw [List.all_cons, Bool.and_eq_true] at h
          rw [spelled_text, Escape.decoded_unquotedChars_append, ih h.2, plainTexts,
            String.toList_append]

/-- Texts are spelled like the text that they are parts of, with a backslash less for each
seam. -/
theorem leftOut_spelled_of_all_isText (h : pieces.all isText = true) :
    LeftOut (seams ctx pieces) (spelled i n ctx true pieces)
      (Escape.unquotedChars ctx true (plainTexts pieces).toList) := by
  have hleft := leftOut_spelled i n ctx pieces
  rwa [joined_of_all_isText h, String.empty_append, spelled_withText, spelled_nil,
    List.append_nil] at hleft

/-! ### The one text of a string -/

/-- A string has one text if it is a single piece, or if all of its pieces are empty. -/
theorem wholeText?_eq_some_iff (s : String) :
    wholeText? pieces = some s ↔ pieces = [.text s] ∨ s = "" ∧ pieces.all isEmpty = true := by
  unfold wholeText?
  split
  · rename_i content
    simp only [Option.some.injEq, List.cons.injEq, Piece.text.injEq, and_true, List.all_cons,
      isEmpty, List.all_nil, Bool.and_true, String.isEmpty_iff]
    constructor
    · exact Or.inl
    · rintro (rfl | ⟨rfl, rfl⟩) <;> rfl
  · rename_i hsingle
    have hne : pieces ≠ [.text s] := hsingle s
    by_cases hempty : pieces.all isEmpty = true
    · simp [hempty, hne, eq_comm]
    · simp [hempty, hne]

/-- Texts come to nothing exactly if they are empty. -/
theorem all_isEmpty_iff :
    pieces.all isEmpty = true ↔ pieces.all isText = true ∧ plainTexts pieces = "" := by
  induction pieces with
  | nil => simp [plainTexts]
  | cons piece rest ih =>
      cases piece with
      | substitution reference => simp [isEmpty, isText]
      | text s =>
          simp only [List.all_cons, isEmpty, isText, Bool.and_eq_true, ih, plainTexts,
            String.append_eq_empty_iff, String.isEmpty_iff, true_and]
          exact and_left_comm

/-- A string with a substitution is written piece by piece. -/
theorem wholeText?_of_not_all_isText (h : pieces.all isText = false) :
    wholeText? pieces = none := by
  rw [Option.eq_none_iff_forall_ne_some]
  intro s hs
  rcases (wholeText?_eq_some_iff s).mp hs with rfl | ⟨-, hempty⟩
  · exact absurd h (by simp [isText])
  · rw [(all_isEmpty_iff.mp hempty).1] at h
    exact absurd h (by decide)

/-- A text that is cut into several pieces is written piece by piece. -/
theorem wholeText?_of_ne_text (hne : plainTexts pieces ≠ "")
    (hcut : pieces ≠ [.text (plainTexts pieces)]) : wholeText? pieces = none := by
  rw [Option.eq_none_iff_forall_ne_some]
  intro s hs
  rcases (wholeText?_eq_some_iff s).mp hs with hsingle | ⟨-, hempty⟩
  · have hs : plainTexts pieces = s := by
      rw [hsingle, plainTexts, plainTexts, String.append_empty]
    rw [hs] at hcut
    exact hcut hsingle
  · exact hne (all_isEmpty_iff.mp hempty).2

/-! ### Merged strings -/

theorem merged_of_not_all_isText (h : pieces.all isText = false) :
    merged pieces = joined "" pieces := by
  rw [merged, if_neg]
  intro hnil
  have hjoined := not_all_isText_joined h ""
  rw [List.isEmpty_iff.mp hnil] at hjoined
  exact absurd hjoined (by decide)

/-- A string without substitutions is merged into its text. -/
theorem merged_of_all_isText (h : pieces.all isText = true) (hne : plainTexts pieces ≠ "") :
    merged pieces = [.text (plainTexts pieces)] := by
  have hjoined := joined_of_all_isText h ""
  rw [String.empty_append, withText, if_neg (by simpa using hne)] at hjoined
  rw [merged, hjoined]
  rfl

theorem joined_of_all_isEmpty (h : pieces.all isEmpty = true) : joined "" pieces = [] := by
  obtain ⟨htexts, hnothing⟩ := all_isEmpty_iff.mp h
  rw [joined_of_all_isText htexts, hnothing]
  rfl

/-- Empty texts are merged into one of them. -/
theorem merged_of_all_isEmpty (h : pieces.all isEmpty = true) :
    merged pieces = pieces.take 1 := by
  rw [merged, joined_of_all_isEmpty h]
  rfl

/-- A string that is a word with a spelling of its own, the word `null` or a reserved word
with capital letters, but is cut into pieces. -/
def CutsWord (pieces : List Piece) : Prop :=
  ∃ word, merged pieces = [.text word] ∧ pieces ≠ [.text word] ∧
    (Text.isNull word = true ∨ Keyword.canonical word ≠ word)

/-- There is only one word that can be cut, the text of the string. -/
theorem cutsWord_iff {word : String} (h : merged pieces = [.text word]) :
    CutsWord pieces ↔ pieces ≠ [.text word] ∧
      (Text.isNull word = true ∨ Keyword.canonical word ≠ word) := by
  constructor
  · rintro ⟨other, hother, hcut, hown⟩
    rw [h, List.cons.injEq, Piece.text.injEq] at hother
    obtain ⟨rfl, -⟩ := hother
    exact ⟨hcut, hown⟩
  · rintro ⟨hcut, hown⟩
    exact ⟨word, h, hcut, hown⟩

end Piece

/-! ## Words -/

namespace Keyword

/-- Putting a reserved word in lower case does not make it the word `null`. -/
@[simp] theorem isNull_canonical (s : String) : Text.isNull (canonical s) = Text.isNull s := by
  rw [canonical]
  split <;> simp [Text.isNull]

theorem canonical_ne_empty {s : String} (h : s ≠ "") : canonical s ≠ "" := by
  rw [canonical]
  split
  · intro hlower
    have hchars := congrArg String.toList hlower
    rw [Text.toList_toLower, String.toList_empty, List.map_eq_nil_iff] at hchars
    exact h (String.toList_eq_nil_iff.mp hchars)
  · exact h

/-- The word `null` is not reserved. -/
theorem canonical_of_isNull {s : String} (h : Text.isNull s = true) : canonical s = s := by
  apply canonical_of_not_isReserved
  rw [isReserved, (Text.isNull_iff s).mp h]
  decide +kernel

end Keyword

/-- A spelling of the letters of a word, with some backslashes left out, is the spelling of
the word as a whole exactly if nothing is left out and the word has no spelling of its
own. -/
theorem Escape.toList_unquoted_canonical_eq_iff {ctx : Context} {word : String}
    {text : List Char} {k : Nat} (hne : word ≠ "")
    (hleft : Text.LeftOut k text (unquotedChars ctx true word.toList))
    (hdecoded : decoded text = word.toList) :
    (unquoted ctx (Keyword.canonical word)).toList = text ↔
      k = 0 ∧ ¬ (Text.isNull word = true ∨ Keyword.canonical word ≠ word) := by
  rw [not_or, not_not, Bool.not_eq_true]
  constructor
  · intro h
    have hnull : Text.isNull word = false := by
      rw [Bool.eq_false_iff]
      intro hnull
      -- the backslash in front of `null` makes the text too long
      have hplain : ∀ c ∈ word.toList, ctx.isSpecial c = false := not_isSpecial_of_isNull hnull
      have hlength := hleft.length_eq
      rw [unquotedChars_of_not_isSpecial hplain, ← h, Keyword.canonical_of_isNull hnull,
        toList_unquoted_of_isNull hnull, List.length_cons] at hlength
      omega
    rw [toList_unquoted (Keyword.canonical_ne_empty hne) (by rw [Keyword.isNull_canonical, hnull])]
      at h
    have hword : Keyword.canonical word = word := by
      apply String.toList_injective
      rw [← hdecoded, ← h, decoded_unquotedChars]
    rw [hword] at h
    exact ⟨hleft.eq_iff.mp h, hnull, hword⟩
  · rintro ⟨hk, hnull, hword⟩
    rw [hword, toList_unquoted hne hnull]
    exact hleft.eq_iff.mpr hk

/-! ## The printed text -/

namespace StringLit

open Piece

variable (i : Indentation) (n : Nat) (ctx : Context) {pieces : List Piece} (span : Span)

theorem chars_unquoted_of_wholeText? {s : String} (h : wholeText? pieces = some s) :
    Doc.chars i n (toDoc ctx (.unquoted pieces span)) =
      (Escape.unquoted ctx (Keyword.canonical s)).toList := by
  rw [toDoc, h, Doc.chars_ofString]

theorem chars_unquoted_of_pieces (h : wholeText? pieces = none) :
    Doc.chars i n (toDoc ctx (.unquoted pieces span)) = spelled i n ctx true pieces := by
  rw [toDoc, h, spelled]

/-- A string with a substitution keeps its text if it has no seam. -/
theorem chars_merged_of_not_all_isText (h : pieces.all isText = false) :
    Doc.chars i n (toDoc ctx (.unquoted (merged pieces) span)) =
        Doc.chars i n (toDoc ctx (.unquoted pieces span)) ↔
      seams ctx pieces = 0 ∧ ¬ CutsWord pieces := by
  have hjoined := not_all_isText_joined h ""
  have hword : ¬ CutsWord pieces := by
    rintro ⟨word, hmerged, -, -⟩
    rw [← merged_of_not_all_isText h, hmerged] at hjoined
    exact absurd hjoined (by simp [isText])
  rw [merged_of_not_all_isText h, chars_unquoted_of_pieces i n ctx span
    (wholeText?_of_not_all_isText hjoined), chars_unquoted_of_pieces i n ctx span
    (wholeText?_of_not_all_isText h), (leftOut_spelled i n ctx pieces).eq_iff]
  exact (and_iff_left hword).symm

/-- A string of empty texts keeps its text. -/
theorem chars_merged_of_all_isEmpty (h : pieces.all isEmpty = true) :
    Doc.chars i n (toDoc ctx (.unquoted (merged pieces) span)) =
        Doc.chars i n (toDoc ctx (.unquoted pieces span)) ↔
      seams ctx pieces = 0 ∧ ¬ CutsWord pieces := by
  have hempty : (merged pieces).all isEmpty = true := by
    rw [merged_of_all_isEmpty h, List.all_eq_true]
    intro piece hpiece
    exact List.all_eq_true.mp h piece (List.mem_of_mem_take hpiece)
  have hseams : seams ctx pieces = 0 := by
    -- nothing can be left out of the empty spelling
    have hlength := (leftOut_spelled i n ctx pieces).length_eq
    rw [joined_of_all_isEmpty h, spelled_nil, List.length_nil] at hlength
    omega
  have hword : ¬ CutsWord pieces := by
    rintro ⟨word, hsingle, -, hown⟩
    rw [hsingle] at hempty
    obtain rfl : word = "" := by simpa [isEmpty] using hempty
    revert hown
    decide +kernel
  rw [chars_unquoted_of_wholeText? i n ctx span ((wholeText?_eq_some_iff "").mpr
      (Or.inr ⟨rfl, h⟩)),
    chars_unquoted_of_wholeText? i n ctx span ((wholeText?_eq_some_iff "").mpr
      (Or.inr ⟨rfl, hempty⟩))]
  exact iff_of_true rfl ⟨hseams, hword⟩

/-- A string without substitutions keeps its text if it has no seam, and if it is not a
word with a spelling of its own that is cut into pieces. -/
theorem chars_merged_of_all_isText (h : pieces.all isText = true)
    (hne : Piece.plainTexts pieces ≠ "") :
    Doc.chars i n (toDoc ctx (.unquoted (merged pieces) span)) =
        Doc.chars i n (toDoc ctx (.unquoted pieces span)) ↔
      seams ctx pieces = 0 ∧ ¬ CutsWord pieces := by
  have hmerged := merged_of_all_isText h hne
  have hleft := leftOut_spelled_of_all_isText i n ctx h
  have hdecoded := decoded_spelled_of_all_isText i n ctx h true
  have hcut := wholeText?_of_ne_text hne
  generalize Piece.plainTexts pieces = word at hne hmerged hleft hdecoded hcut
  by_cases hsingle : pieces = [.text word]
  · have hseams : seams ctx pieces = 0 := by
      rw [hsingle]
      simp [seams, leadingText]
    have hword : ¬ CutsWord pieces := fun h => ((cutsWord_iff hmerged).mp h).1 hsingle
    rw [hmerged, ← hsingle]
    exact iff_of_true rfl ⟨hseams, hword⟩
  · rw [cutsWord_iff hmerged, and_iff_right hsingle, hmerged, chars_unquoted,
      chars_unquoted_of_pieces i n ctx span (hcut hsingle)]
    exact Escape.toList_unquoted_canonical_eq_iff hne hleft hdecoded

/-- The printed text of a bare string stays the same when its pieces are merged, unless it
has a seam or is a word cut into pieces. -/
theorem chars_merged_iff (pieces : List Piece) :
    Doc.chars i n (toDoc ctx (.unquoted (merged pieces) span)) =
        Doc.chars i n (toDoc ctx (.unquoted pieces span)) ↔
      seams ctx pieces = 0 ∧ ¬ CutsWord pieces := by
  cases htexts : pieces.all isText with
  | false => exact chars_merged_of_not_all_isText i n ctx span htexts
  | true =>
      by_cases hne : Piece.plainTexts pieces = ""
      · exact chars_merged_of_all_isEmpty i n ctx span (all_isEmpty_iff.mpr ⟨htexts, hne⟩)
      · exact chars_merged_of_all_isText i n ctx span htexts hne

end StringLit

/-- A text among others with separators between them can be taken out: what stands in front
of it and behind it does not depend on it. -/
theorem Text.exists_intercalate_eq {α : Type} (sep : List α) (before after : List (List α)) :
    ∃ front back, ∀ text, sep.intercalate (before ++ text :: after) = front ++ text ++ back := by
  cases before with
  | nil => exact ⟨[], after.flatMap fun other => sep ++ other, fun text => by
      rw [List.nil_append, intercalate_cons_eq, List.nil_append]⟩
  | cons first before =>
      refine ⟨first ++ (before.flatMap fun other => sep ++ other) ++ sep,
        after.flatMap fun other => sep ++ other, fun text => ?_⟩
      rw [List.cons_append, intercalate_cons_eq, List.flatMap_append, List.flatMap_cons]
      simp only [List.append_assoc]

/-- **How a bare string is cut into pieces does not matter, unless a border separates two
hyphens of a key or divides a word.**  A string that is a value prints the same text after
its pieces are merged exactly if it is not a word that is cut into pieces.  For a segment of
a key path, among whatever other segments, there must be no seam either. -/
theorem Node.format_merged_iff (i : Indentation) (pieces : List Piece) (span : Span) :
    ((Node.value (.scalar (.string (.unquoted (Piece.merged pieces) span)))).format i =
        (Node.value (.scalar (.string (.unquoted pieces span)))).format i ↔
      ¬ Piece.CutsWord pieces) ∧
    ∀ (before after : List StringLit) (pathSpan : Span),
      (Node.keyPath ⟨before ++ .unquoted (Piece.merged pieces) span :: after, pathSpan⟩).format i =
          (Node.keyPath ⟨before ++ .unquoted pieces span :: after, pathSpan⟩).format i ↔
        Piece.seams .key pieces = 0 ∧ ¬ Piece.CutsWord pieces := by
  constructor
  · have hchars : ∀ content : StringLit,
        ((Node.value (.scalar (.string content))).format i).toList =
          Doc.chars i 0 (content.toDoc .value) := by
      intro content
      rw [Node.format_eq_render, Node.toDoc, Value.toDoc, Scalar.toDoc, Doc.chars]
    rw [← String.toList_inj, hchars, hchars, StringLit.chars_merged_iff, Piece.seams_value]
    exact and_iff_right rfl
  · intro before after pathSpan
    obtain ⟨front, back, hpath⟩ := Text.exists_intercalate_eq ['.']
      (before.map fun segment => Doc.chars i 0 (segment.toDoc .key))
      (after.map fun segment => Doc.chars i 0 (segment.toDoc .key))
    have hchars : ∀ segment : StringLit,
        ((Node.keyPath ⟨before ++ segment :: after, pathSpan⟩).format i).toList =
          front ++ Doc.chars i 0 (segment.toDoc .key) ++ back := by
      intro segment
      rw [Node.format_eq_render, Node.toDoc, ← Doc.chars, KeyPath.chars_toDoc, List.map_append,
        List.map_cons, hpath]
    rw [← String.toList_inj, hchars, hchars, List.append_left_inj, List.append_right_inj,
      StringLit.chars_merged_iff]

example :
    (Node.keyPath ⟨[.unquoted [.text "a-", .text "-b"] .unset], .unset⟩).format {} = "a--b" ∧
      (Node.keyPath ⟨[.unquoted [.text "a--b"] .unset], .unset⟩).format {} = "a\\--b" := by
  decide +kernel

end DiagramText
