import DiagramText.Proofs.PieceBorders
import DiagramText.Proofs.Reading.Quoted

/-!
# Strings between double quotes

Between double quotes three characters have a meaning of their own: the quote, the backslash
and, in a value, the dollar sign.  Each of them is written with a backslash in front, and a
line feed as a backslash and an `n`.  So a written text falls into signs as a bare text does,
one for each of its characters (`Escape.signs_doubleQuotedChars`), and none of the three is
ever a sign on its own (`Escape.plain_notMem_signs_doubleQuotedChars`).  A reader that follows
the signs meets no quote before the closing one and no dollar sign that would start a
substitution.

## Why borders do not matter here

How a character is written depends on nothing around it.  In a bare string it does, which is
why the borders between its pieces show (`PieceBorders`).  Here the text of a string is
simply the texts of its pieces one after the other (`StringLit.chars_doubleQuoted_pieces`).
Two facts are in that equation.  A piece is written in the context of the string, and a
substitution in front of it does not change that, although the path of the substitution is
written as a key.  And writing turns concatenation into concatenation, so that pieces which
are merged are written as before (`Piece.flatMap_quoted_joined`).
-/

namespace DiagramText

/-! ## Signs -/

namespace Escape

/-- The sign for one character between double quotes. -/
def doubleQuotedSign (ctx : Context) (c : Char) : Sign :=
  if c = '\n' then .escaped 'n'
  else if c = '"' ∨ c = '\\' ∨ (c = '$' ∧ ctx = .value) then .escaped c
  else .plain c

/-- What is written for a character is one sign, whatever follows. -/
theorem signs_doubleQuotedChar_append (ctx : Context) (c : Char) (rest : List Char) :
    signs (doubleQuotedChar ctx c ++ rest) = doubleQuotedSign ctx c :: signs rest := by
  unfold doubleQuotedChar doubleQuotedSign
  split
  · exact signs_escape 'n' rest
  · split
    · exact signs_escape c rest
    · rename_i hplain
      rw [not_or, not_or] at hplain
      exact signs_of_ne hplain.2.1 rest

/-- What is written for a text are the signs for its characters. -/
theorem signs_doubleQuotedChars (ctx : Context) (cs : List Char) :
    signs (doubleQuotedChars ctx cs) = cs.map (doubleQuotedSign ctx) := by
  induction cs with
  | nil => rfl
  | cons c cs ih =>
      rw [doubleQuotedChars_cons, signs_doubleQuotedChar_append, ih, List.map_cons]

/-- A character that has a meaning between double quotes is never a sign on its own. -/
theorem plain_notMem_signs_doubleQuotedChars {ctx : Context} {d : Char}
    (hd : d = '"' ∨ d = '\\' ∨ (d = '$' ∧ ctx = .value)) (cs : List Char) :
    .plain d ∉ signs (doubleQuotedChars ctx cs) := by
  rw [signs_doubleQuotedChars, List.mem_map]
  rintro ⟨c, -, hc⟩
  unfold doubleQuotedSign at hc
  split at hc
  · exact Sign.noConfusion hc
  · split at hc
    · exact Sign.noConfusion hc
    · rename_i hplain
      rw [Sign.plain.injEq] at hc
      exact hplain (hc ▸ hd)

end Escape

/-! ## Pieces -/

namespace Piece

variable (i : Indentation) (n : Nat) (ctx : Context)

/-- The characters of one piece of a string between double quotes.  A text is written in the
context of the string, and a substitution in the same way in every context. -/
def quoted : Piece → List Char
  | .text s => Escape.doubleQuotedChars ctx s.toList
  | .substitution reference => Doc.chars i n reference.toDoc

/-- Pieces are written one after the other.  An empty text is passed over, but nothing would
be written for it anyway. -/
theorem flatMap_chars_docs_doubleQuoted (opening : Bool) (pieces : List Piece) :
    (docs (fun _ => Escape.doubleQuoted ctx) opening pieces).flatMap (Doc.chars i n) =
      pieces.flatMap (quoted i n ctx) := by
  induction pieces generalizing opening with
  | nil => simp [docs]
  | cons piece rest ih =>
      cases piece with
      | substitution reference => rw [docs, List.flatMap_cons, ih, List.flatMap_cons, quoted]
      | text s =>
          rw [docs, List.flatMap_cons, quoted]
          split
          · rename_i hempty
            rw [String.isEmpty_iff.mp hempty, ih]
            rfl
          · rw [List.flatMap_cons, ih, Doc.chars_ofString, Escape.toList_doubleQuoted]

theorem flatMap_quoted_withText (s : String) (rest : List Piece) :
    (withText s rest).flatMap (quoted i n ctx) =
      Escape.doubleQuotedChars ctx s.toList ++ rest.flatMap (quoted i n ctx) := by
  rw [withText]
  split
  · rename_i hempty
    rw [String.isEmpty_iff.mp hempty]
    rfl
  · rw [List.flatMap_cons, quoted]

/-- Merged pieces are written as the text that has been collected and the pieces behind
it. -/
theorem flatMap_quoted_joined (collected : String) (pieces : List Piece) :
    (joined collected pieces).flatMap (quoted i n ctx) =
      Escape.doubleQuotedChars ctx collected.toList ++ pieces.flatMap (quoted i n ctx) := by
  induction pieces generalizing collected with
  | nil => rw [joined, flatMap_quoted_withText]
  | cons piece rest ih =>
      cases piece with
      | substitution reference =>
          rw [joined, flatMap_quoted_withText, List.flatMap_cons, List.flatMap_cons, ih]
          rfl
      | text s =>
          rw [joined, ih, String.toList_append, Escape.doubleQuotedChars_append,
            List.append_assoc, List.flatMap_cons, quoted]

end Piece

/-! ## The printed text -/

namespace StringLit

variable (i : Indentation) (n : Nat) (ctx : Context) (pieces : List Piece) (span : Span)

/-- A string between double quotes has the characters of its pieces between the quotes. -/
theorem chars_doubleQuoted_pieces :
    Doc.chars i n (toDoc ctx (.doubleQuoted pieces span)) =
      '"' :: (pieces.flatMap (Piece.quoted i n ctx) ++ ['"']) := by
  rw [toDoc, Doc.chars_surround, Doc.chars_concat, Piece.flatMap_chars_docs_doubleQuoted,
    Doc.chars_ofString]
  rfl

theorem chars_doubleQuoted_joined :
    Doc.chars i n (toDoc ctx (.doubleQuoted (Piece.joined "" pieces) span)) =
      Doc.chars i n (toDoc ctx (.doubleQuoted pieces span)) := by
  rw [chars_doubleQuoted_pieces, chars_doubleQuoted_pieces, Piece.flatMap_quoted_joined]
  rfl

end StringLit

/-- **Strings between double quotes are read back, and it does not matter how they are cut
into pieces.**  A text is read up to its closing quote and no further; on the way there is no
other quote outside an escape and, in a value, no dollar sign.  A string is printed as its
pieces one after the other, each text in the context of the string, so that merging texts
that stand next to each other and removing empty ones leaves the printed text as it is, for a
value as for a segment of a key path. -/
theorem Node.format_doubleQuoted_joined (i : Indentation) :
    (∀ (ctx : Context) (s : String) (rest : List Char),
      Reading.doubleQuoted ctx ((Escape.doubleQuoted ctx s).toList ++ '"' :: rest) =
          some (s.toList, rest) ∧
        .plain '"' ∉ Escape.signs (Escape.doubleQuoted ctx s).toList ∧
        .plain '$' ∉ Escape.signs (Escape.doubleQuoted .value s).toList) ∧
    ∀ (pieces : List Piece) (span : Span),
      (∀ (ctx : Context) (n : Nat),
        Doc.chars i n (StringLit.toDoc ctx (.doubleQuoted pieces span)) =
          '"' :: (pieces.flatMap (Piece.quoted i n ctx) ++ ['"'])) ∧
      (Node.value (.scalar (.string (.doubleQuoted (Piece.joined "" pieces) span)))).format i =
        (Node.value (.scalar (.string (.doubleQuoted pieces span)))).format i ∧
      ∀ (before after : List StringLit) (pathSpan : Span),
        (Node.keyPath
            ⟨before ++ .doubleQuoted (Piece.joined "" pieces) span :: after, pathSpan⟩).format i =
          (Node.keyPath ⟨before ++ .doubleQuoted pieces span :: after, pathSpan⟩).format i := by
  refine ⟨fun ctx s rest => ⟨?_, ?_, ?_⟩, fun pieces span => ⟨?_, ?_, ?_⟩⟩
  · rw [Escape.toList_doubleQuoted]
    exact Reading.doubleQuoted_append ctx s.toList rest
  · rw [Escape.toList_doubleQuoted]
    exact Escape.plain_notMem_signs_doubleQuotedChars (Or.inl rfl) s.toList
  · rw [Escape.toList_doubleQuoted]
    exact Escape.plain_notMem_signs_doubleQuotedChars (Or.inr (Or.inr ⟨rfl, rfl⟩)) s.toList
  · intro ctx n
    exact StringLit.chars_doubleQuoted_pieces i n ctx pieces span
  · rw [← String.toList_inj, format_eq_render, format_eq_render]
    exact StringLit.chars_doubleQuoted_joined i 0 .value pieces span
  · intro before after pathSpan
    rw [← String.toList_inj, format_eq_render, format_eq_render, Node.toDoc, Node.toDoc,
      ← Doc.chars, ← Doc.chars, KeyPath.chars_toDoc, KeyPath.chars_toDoc, List.map_append,
      List.map_append, List.map_cons, List.map_cons, StringLit.chars_doubleQuoted_joined]

example :
    (Node.value (.scalar (.string (.doubleQuoted
      [.text "a$", .substitution ⟨false, .ofTexts ["b"], .unset⟩, .text "", .text "$c"]
        .unset)))).format {} = "\"a\\$$\x7bb\x7d\\$c\"" := by
  decide +kernel

end DiagramText
