import DiagramText.Format
import DiagramText.Proofs.DocText
import DiagramText.Proofs.Reading.Quoted

/-!
# Reading a key path back

`KeyPath.format` writes a path for a message to a user, from segments that are
plain texts.  A reader of the diagram language takes such a path apart at its
dots, and the question is whether it finds the segments again.

The reader is `KeyPath.read?`.  A segment between quotes is read by the readers of
`Reading.Quoted`.  Any other segment is bare: it goes up to the next dot, the
blanks around it do not count, a backslash in front of `null` only says that the
null value is not meant, and a reserved word is the same word in any case.

## Why nothing is lost

A bare segment is read literally, without escapes.  This is enough because a text
is written bare only if none of its characters needs an escape
(`unquotedChars_of_not_anyActive`); in particular it has no dot, no backslash and
no quote.  The three things that reading does to a bare segment then have to do
nothing: there are no blanks to trim, a backslash stands there only if the writer
has put it in front of `null`, and a reserved word with a capital letter is not
written bare.  The other two ways of writing are undone by their own readers.
-/

namespace DiagramText

namespace Text

/-- A text without a capital letter is its own lower case. -/
theorem toLower_of_not_hasUpper {s : String} (h : hasUpper s = false) : s.toLower = s := by
  have hchar : ∀ c ∈ s.toList, c.toLower = c := by
    intro c hc
    have hupper : c.isUpper = false := by
      rw [hasUpper, List.any_eq_false] at h
      simpa using h c hc
    unfold Char.toLower
    rw [dif_neg (of_decide_eq_false hupper)]
  apply String.toList_injective
  rw [toList_toLower, List.map_congr_left hchar, List.map_id']

/-- A text that ends in no blank can be trimmed behind another first character. -/
theorem trimChars_cons {c : Char} {cs : List Char} (hc : isBlank c = false) (hne : cs ≠ [])
    (h : trimChars cs = cs) : trimChars (c :: cs) = c :: cs := by
  apply trimChars_of_ends
  · intro d hd
    rw [List.head?_cons, Option.some.injEq] at hd
    exact hd ▸ hc
  · intro d hd
    obtain ⟨e, es, rfl⟩ := List.exists_cons_of_ne_nil hne
    rw [List.getLast?_cons_cons] at hd
    exact isBlank_last_trimChars (h.symm ▸ hd)

end Text

/-! ## Texts that need no escape -/

namespace Context

variable {ctx : Context} {opening : Bool}

/-- A text without an active character has no character that is active in every
position. -/
theorem notMem_of_not_anyActive {c : Char}
    (hc : ∀ opening next, ctx.isActive opening c next = true) {cs : List Char}
    (h : ctx.anyActive opening cs = false) : c ∉ cs := by
  induction cs generalizing opening with
  | nil => simp
  | cons d ds ih =>
      rw [anyActive, Bool.or_eq_false_iff] at h
      rw [List.mem_cons, not_or]
      refine ⟨?_, ih h.2⟩
      rintro rfl
      rw [hc] at h
      exact absurd h.1 (by simp)

/-- A character of the table is active everywhere, unless it is one of the two
whose position matters. -/
theorem isActive_of_isSpecial {c : Char} (hyphen : c ≠ '-') (ampersand : c ≠ '&')
    (h : ctx.isSpecial c = true) (next : Option Char) : ctx.isActive opening c next = true := by
  cases ctx with
  | value => exact h
  | key => rw [isActive_key_of_ne hyphen ampersand, h]

/-- The characters that open a string of another kind are active everywhere. -/
theorem isActive_of_isOpener {c : Char} (h : Escape.isOpener c = true) (next : Option Char) :
    ctx.isActive opening c next = true := by
  simp only [Escape.isOpener, Bool.or_eq_true, beq_iff_eq] at h
  rcases h with (rfl | rfl) | rfl <;> cases ctx <;> rfl

end Context

/-- A text without an active character is written bare as it is. -/
theorem Escape.unquotedChars_of_not_anyActive {ctx : Context} {opening : Bool} {cs : List Char}
    (h : ctx.anyActive opening cs = false) : Escape.unquotedChars ctx opening cs = cs := by
  induction cs generalizing opening with
  | nil => rfl
  | cons c cs ih =>
      rw [Context.anyActive, Bool.or_eq_false_iff] at h
      have hnewline : c ≠ '\n' := by
        rintro rfl
        rw [Context.isActive_of_isSpecial (by decide) (by decide) (by cases ctx <;> rfl)] at h
        exact absurd h.1 (by simp)
      have hopener : Escape.isOpener c = false := by
        cases hc : Escape.isOpener c with
        | false => rfl
        | true =>
            rw [Context.isActive_of_isOpener hc] at h
            exact absurd h.1 (by simp)
      have hchar : Escape.unquotedChar ctx opening c cs.head? = [c] := by
        rw [unquotedChar, if_neg hnewline, needsBackslash_of_not_isOpener hopener, h.1,
          if_neg Bool.false_ne_true]
      rw [unquotedChars_cons, hchar, ih h.2, List.singleton_append]

/-- What it takes for a text to be written bare without an escape. -/
theorem Context.admitsBare_iff (ctx : Context) (s : String) :
    ctx.admitsBare s = true ↔
      ctx.isReadAsOther s = false ∧ ctx.anyActive true s.toList = false ∧ Text.trim s = s := by
  simp [Context.admitsBare, and_assoc]

/-- A text that can be written bare is written as it is, except that `null` gets a
backslash in front. -/
theorem Escape.unquoted_of_admitsBare {ctx : Context} {s : String}
    (h : ctx.admitsBare s = true) :
    Escape.unquoted ctx s = if Text.isNull s then "\\" ++ s else s := by
  obtain ⟨hother, hactive, -⟩ := (ctx.admitsBare_iff s).mp h
  have hempty : s.isEmpty = false :=
    String.isEmpty_eq_false_iff.mpr ((ctx.isReadAsOther_eq_false_iff s).mp hother).1
  rw [Escape.unquoted, hempty, if_neg Bool.false_ne_true]
  split
  · rfl
  · apply String.toList_injective
    rw [Escape.toList_unquotedPiece, Escape.unquotedChars_of_not_anyActive hactive]

/-! ## The reader -/

namespace Reading

/-- Takes away the backslash in front of the word `null`. -/
def dropNullMark (s : String) : String :=
  match s.toList with
  | '\\' :: word => if Text.isNull (String.ofList word) then String.ofList word else s
  | _ => s

/-- The text that a bare segment with the given characters says. -/
def bareSegment (cs : List Char) : String :=
  Keyword.canonical (dropNullMark (Text.trim (String.ofList cs)))

/-- Reads a segment of a key path.  The result is its text and what follows. -/
def segment : List Char → Option (String × List Char)
  | '"' :: rest => (doubleQuoted .key rest).map fun found => (String.ofList found.1, found.2)
  | '\x27' :: rest => (singleQuoted rest).map fun found => (String.ofList found.1, found.2)
  | text => some (bareSegment (text.takeWhile (· != '.')), text.dropWhile (· != '.'))

/-- Reads at most `n` segments with single dots between them, and nothing else. -/
def segments : Nat → List Char → Option (List String)
  | 0, _ => none
  | n + 1, text =>
      (segment text).bind fun found =>
        match found.2 with
        | [] => some [found.1]
        | '.' :: rest => (segments n rest).map (found.1 :: ·)
        | _ => none

/-- What may follow a segment: the end, or a dot. -/
def endsSegment (rest : List Char) : Prop := rest = [] ∨ ∃ tail, rest = '.' :: tail

theorem head?_ne_of_endsSegment {rest : List Char} (h : endsSegment rest) :
    rest.head? ≠ some '\x27' := by
  rcases h with rfl | ⟨tail, rfl⟩ <;> simp

/-- A backslash in front of `null` is taken away. -/
theorem dropNullMark_of_isNull {s : String} (h : Text.isNull s = true) :
    dropNullMark ("\\" ++ s) = s := by
  have hchars : ("\\" ++ s).toList = '\\' :: s.toList := by simp
  rw [dropNullMark, hchars]
  simp [h]

/-- Without a backslash there is nothing to take away. -/
theorem dropNullMark_of_notMem {s : String} (h : '\\' ∉ s.toList) : dropNullMark s = s := by
  unfold dropNullMark
  split
  · rename_i word hword
    exact absurd (hword ▸ List.mem_cons_self) h
  · rfl

/-- A bare segment is read up to the dot or the end. -/
theorem segment_of_bare {cs rest : List Char} (hrest : endsSegment rest) (dot : '.' ∉ cs)
    (double : (cs ++ rest).head? ≠ some '"') (single : (cs ++ rest).head? ≠ some '\x27') :
    segment (cs ++ rest) = some (bareSegment cs, rest) := by
  have hpos : ∀ c ∈ cs, (c != '.') = true := by
    intro c hc
    rw [bne_iff_ne]
    rintro rfl
    exact dot hc
  have hstop : rest.takeWhile (· != '.') = [] ∧ rest.dropWhile (· != '.') = rest := by
    rcases hrest with rfl | ⟨tail, rfl⟩ <;> simp
  have hread : segment (cs ++ rest) =
      some (bareSegment ((cs ++ rest).takeWhile (· != '.')), (cs ++ rest).dropWhile (· != '.')) := by
    rw [segment]
    · rintro tail htail
      exact double (by rw [htail]; rfl)
    · rintro tail htail
      exact single (by rw [htail]; rfl)
  rw [hread, List.takeWhile_append_of_pos hpos, List.dropWhile_append_of_pos hpos, hstop.1,
    hstop.2, List.append_nil]

/-! ## Reading what has been written -/

/-- A text between double quotes is read back as a segment. -/
theorem segment_doubleQuoted (s : String) (rest : List Char) :
    segment ('"' :: (Escape.doubleQuotedChars .key s.toList ++ '"' :: rest)) =
      some (s, rest) := by
  rw [segment, doubleQuoted_append]
  simp

/-- A text without a line feed is read back as a segment between single quotes. -/
theorem segment_singleQuoted {s : String} {rest : List Char} (newline : '\n' ∉ s.toList)
    (hrest : endsSegment rest) :
    segment ('\x27' :: (Escape.singleQuotedChars s.toList ++ '\x27' :: rest)) =
      some (s, rest) := by
  rw [segment, singleQuoted_append_of_notMem newline (head?_ne_of_endsSegment hrest)]
  simp

/-- A text that is written bare, in the case in which it is printed, is read back
as a segment. -/
theorem segment_bare {s : String} {rest : List Char} (hbare : Context.key.admitsBare s = true)
    (hcase : Keyword.canonical s = s) (hrest : endsSegment rest) :
    segment ((Escape.unquoted .key s).toList ++ rest) = some (s, rest) := by
  obtain ⟨hother, hactive, htrim⟩ := (Context.key.admitsBare_iff s).mp hbare
  have hne : s.toList ≠ [] := by
    simpa using ((Context.key.isReadAsOther_eq_false_iff s).mp hother).1
  have htrim' : Text.trimChars s.toList = s.toList := by
    rw [← Text.toList_trim, htrim]
  -- the characters that would be read as something else are all active
  have hdot : '.' ∉ s.toList := Context.notMem_of_not_anyActive (fun _ _ => rfl) hactive
  have hbackslash : '\\' ∉ s.toList := Context.notMem_of_not_anyActive (fun _ _ => rfl) hactive
  have hdouble : '"' ∉ s.toList := Context.notMem_of_not_anyActive (fun _ _ => rfl) hactive
  have hsingle : '\x27' ∉ s.toList := Context.notMem_of_not_anyActive (fun _ _ => rfl) hactive
  obtain ⟨c, cs, hs⟩ := List.exists_cons_of_ne_nil hne
  rw [Escape.unquoted_of_admitsBare hbare]
  split
  · rename_i hnull
    have hchars : ("\\" ++ s).toList = '\\' :: s.toList := by simp
    rw [hchars, segment_of_bare hrest (by simp [hdot]) (by simp) (by simp)]
    have hmarked : Text.trim (String.ofList ('\\' :: s.toList)) = "\\" ++ s := by
      apply String.toList_injective
      rw [Text.toList_trim, String.toList_ofList, hchars,
        Text.trimChars_cons (by decide) hne htrim']
    rw [bareSegment, hmarked, dropNullMark_of_isNull hnull, hcase]
  · rw [hs] at hdouble hsingle
    rw [segment_of_bare hrest hdot]
    · rw [bareSegment, String.ofList_toList, htrim, dropNullMark_of_notMem hbackslash, hcase]
    · rw [hs, List.cons_append, List.head?_cons]
      intro hc
      exact hdouble (Option.some.inj hc ▸ List.mem_cons_self)
    · rw [hs, List.cons_append, List.head?_cons]
      intro hc
      exact hsingle (Option.some.inj hc ▸ List.mem_cons_self)

end Reading

/-- The three forms that a segment of a key path is written in, and when. -/
theorem StringLit.ofSegment_cases (s : String) :
    StringLit.ofSegment s = .doubleQuoted [.text s] .unset ∨
      (StringLit.ofSegment s = .singleQuoted s .unset ∧ '\n' ∉ s.toList) ∨
      (StringLit.ofSegment s = .bare s ∧ Context.key.admitsBare s = true ∧
        Keyword.canonical s = s) := by
  unfold ofSegment
  split
  · exact Or.inl rfl
  · rename_i hcase
    have hcanonical : Keyword.canonical s = s := by
      cases hreserved : Keyword.isReserved s with
      | false => exact Keyword.canonical_of_not_isReserved hreserved
      | true =>
          rw [hreserved, Bool.true_and, Bool.not_eq_true] at hcase
          rw [Keyword.canonical_of_isReserved hreserved, Text.toLower_of_not_hasUpper hcase]
    rcases ofText_cases .key s with hform | hform | ⟨hform, hbare⟩
    · exact Or.inl hform
    · exact Or.inr (Or.inl hform)
    · exact Or.inr (Or.inr ⟨hform, hbare, hcanonical⟩)

namespace Reading

/-- **A written segment is read back**, whatever its text. -/
theorem segment_append (i : Indentation) (n : Nat) (s : String) {rest : List Char}
    (hrest : endsSegment rest) :
    segment (Doc.chars i n ((StringLit.ofSegment s).toDoc .key) ++ rest) = some (s, rest) := by
  rcases StringLit.ofSegment_cases s with hform | ⟨hform, hnewline⟩ | ⟨hform, hbare, hcase⟩
  · rw [hform, StringLit.chars_doubleQuoted, List.cons_append, List.append_assoc]
    exact segment_doubleQuoted s rest
  · rw [hform, StringLit.chars_singleQuoted, List.cons_append, List.append_assoc]
    exact segment_singleQuoted hnewline hrest
  · rw [hform, StringLit.bare, StringLit.chars_unquoted, hcase]
    exact segment_bare hbare hcase hrest

/-- Written segments with dots between them are read back, if there is at least
one. -/
theorem segments_intercalate (i : Indentation) (n : Nat) (first : String) (others : List String)
    (fuel : Nat) (hfuel : others.length < fuel) :
    segments fuel (['.'].intercalate ((first :: others).map fun s =>
      Doc.chars i n ((StringLit.ofSegment s).toDoc .key))) = some (first :: others) := by
  induction others generalizing first fuel with
  | nil =>
      obtain ⟨fuel, rfl⟩ := Nat.exists_eq_succ_of_ne_zero (by omega : fuel ≠ 0)
      have hread := segment_append i n first (Or.inl rfl : endsSegment [])
      rw [List.append_nil] at hread
      rw [List.map_singleton, List.intercalate_singleton, segments, hread]
      rfl
  | cons next others ih =>
      obtain ⟨fuel, rfl⟩ := Nat.exists_eq_succ_of_ne_zero (by omega : fuel ≠ 0)
      rw [List.length_cons] at hfuel
      have hothers := ih next fuel (by omega)
      rw [List.map_cons] at hothers
      rw [List.map_cons, List.map_cons, List.intercalate_cons_cons, List.append_assoc,
        List.singleton_append, segments, segment_append i n first (Or.inr ⟨_, rfl⟩)]
      show (segments fuel _).map (first :: ·) = _
      rw [hothers]
      rfl

end Reading

namespace KeyPath

/-- The texts of the segments of a key path that is written in a string. -/
def read? (s : String) : Option (List String) := Reading.segments (s.length + 1) s.toList

/-- **A path without segments has no text, and every other path can be read back
from its text.**  There is no condition on the segments: they may be empty, hold
dots, quotes, line feeds or blanks, or spell a reserved word or `null`. -/
theorem read?_format_segments (segments : List String) :
    (format segments = .error .empty ↔ segments = []) ∧
      (segments ≠ [] → ∃ text, format segments = .ok text ∧ read? text = some segments) := by
  refine ⟨format_eq_error_iff segments .empty, ?_⟩
  intro hne
  obtain ⟨first, others, rfl⟩ := List.exists_cons_of_ne_nil hne
  refine ⟨(Node.keyPath (ofSegments (first :: others))).format {}, by simp [format], ?_⟩
  have hchars : ((Node.keyPath (ofSegments (first :: others))).format {}).toList =
      ['.'].intercalate ((first :: others).map fun s =>
        Doc.chars {} 0 ((StringLit.ofSegment s).toDoc .key)) := by
    rw [Node.format_eq_render, ← Doc.chars, Node.toDoc, ofSegments, KeyPath.chars_toDoc,
      List.map_map]
    rfl
  rw [read?, ← String.length_toList, hchars]
  apply Reading.segments_intercalate
  have hlength := Text.length_le_length_intercalate ['.'] (by simp) ((first :: others).map fun s =>
    Doc.chars {} 0 ((StringLit.ofSegment s).toDoc .key))
  rw [List.length_map, List.length_cons] at hlength
  omega

/-- Segments that hold what a path is written with: a dot and blanks, a quote, an
escape, both quotes and a line feed, two words with a meaning of their own, and
nothing at all. -/
theorem read?_format_segments_awkward :
    ∃ text, format [" a.b", "it's", "\\\"", "'\"\n", "NULL", "Shape", ""] = .ok text ∧
      read? text = some [" a.b", "it's", "\\\"", "'\"\n", "NULL", "Shape", ""] :=
  (read?_format_segments [" a.b", "it's", "\\\"", "'\"\n", "NULL", "Shape", ""]).2 (by decide)

end KeyPath

end DiagramText
