import DiagramText.Proofs.Reading.Path
import DiagramText.Proofs.Reading.Bare
import DiagramText.Proofs.SingleQuotes

/-!
# The chosen form and its spelling

A text passes two scanners on its way to the output.  `StringLit.ofText` looks for characters
that a bare string cannot hold, and chooses the form; later the escapes look at the characters
again, and put backslashes where they are needed.  Neither knows of the other, and each has the
positions of a key in it once more: a hyphen matters in front of a hyphen, and an ampersand at the
start.  Character by character they come to the same decision, except for the characters that open
a string of another kind (`Escape.needsBackslash_of_not_isOpener`).

**They agree** (`StringLit.ofText_agrees`).  A text for which the bare form was chosen is spelled
without a backslash.  The one exception is the name `null`, which is an ordinary name to the
chooser and the null value to the escapes.  And where single quotes were chosen, no line feed has
to be spelled out, so that taking the doubled quotes for single ones gives the text back.

## Where the chooser is stricter

That a text needs no backslash is not enough for the bare form.  The characters that open a string
of another kind take a backslash at the start only, but the chooser puts a text between quotes if
one of them occurs anywhere.  Up to this the two scanners find the same texts
(`Context.anyActive_eq_false_iff`).
-/

namespace DiagramText

/-- Spelling a text does not make it shorter. -/
theorem Escape.length_le_length_unquotedChars (ctx : Context) (opening : Bool) (cs : List Char) :
    cs.length ≤ (unquotedChars ctx opening cs).length := by
  induction cs generalizing opening with
  | nil => exact Nat.zero_le _
  | cons c cs ih =>
      have hchar := List.length_pos_iff.mpr (unquotedChar_ne_nil ctx opening c cs.head?)
      have hrest := ih false
      rw [unquotedChars_cons, List.length_append, List.length_cons]
      omega

/-- The first character of a text that is spelled as it is needs no backslash, and the rest is
spelled as it is. -/
theorem Escape.of_unquotedChars_cons_eq {ctx : Context} {opening : Bool} {c : Char}
    {cs : List Char} (h : unquotedChars ctx opening (c :: cs) = c :: cs) :
    needsBackslash ctx opening c cs.head? = false ∧ unquotedChars ctx false cs = cs := by
  rw [unquotedChars_cons] at h
  rcases unquotedChar_cases ctx opening c cs.head? with
    ⟨hnewline, hc⟩ | ⟨-, -, hc⟩ | ⟨-, hplain, hc⟩
  · rw [hc, hnewline] at h
    exact absurd (List.cons.inj h).1 (by decide)
  · -- a backslash more would have to be made up for by a character less
    have hle := length_le_length_unquotedChars ctx false cs
    have hlength := congrArg List.length h
    rw [hc, List.length_append] at hlength
    simp only [List.length_cons, List.length_nil] at hlength
    omega
  · rw [hc] at h
    exact ⟨hplain, (List.cons.inj h).2⟩

/-- The chooser finds nothing active in a text exactly if no character of the text opens a string
of another kind, and the text is spelled as it is. -/
theorem Context.anyActive_eq_false_iff (ctx : Context) (opening : Bool) (cs : List Char) :
    ctx.anyActive opening cs = false ↔
      (∀ c ∈ cs, Escape.isOpener c = false) ∧ Escape.unquotedChars ctx opening cs = cs := by
  constructor
  · intro h
    refine ⟨fun c hc => ?_, Escape.unquotedChars_of_not_anyActive h⟩
    rw [← Bool.not_eq_true]
    intro hopener
    exact notMem_of_not_anyActive (fun _ next => isActive_of_isOpener hopener next) h hc
  · rintro ⟨hopener, hspelled⟩
    induction cs generalizing opening with
    | nil => rfl
    | cons c cs ih =>
        rw [List.forall_mem_cons] at hopener
        obtain ⟨hplain, hrest⟩ := Escape.of_unquotedChars_cons_eq hspelled
        rw [Escape.needsBackslash_of_not_isOpener hopener.1] at hplain
        rw [anyActive, hplain, ih false hopener.2 hrest, Bool.false_or]

namespace StringLit

/-- The bare form is chosen exactly if the text admits it. -/
theorem exists_ofText_eq_unquoted_iff (ctx : Context) (s : String) :
    (∃ pieces span, ofText ctx s = .unquoted pieces span) ↔ ctx.admitsBare s = true := by
  constructor
  · rintro ⟨pieces, span, h⟩
    rcases ofText_cases ctx s with hform | ⟨hform, -⟩ | ⟨-, hbare⟩
    · exact StringLit.noConfusion (hform.symm.trans h)
    · exact StringLit.noConfusion (hform.symm.trans h)
    · exact hbare
  · intro hbare
    rw [ofText]
    exact ⟨_, _, by rw [if_pos hbare, bare]⟩

/-- Single quotes are not chosen for a text with a line feed. -/
theorem newline_notMem_of_ofText_eq_singleQuoted {ctx : Context} {s content : String} {span : Span}
    (h : ofText ctx s = .singleQuoted content span) : '\n' ∉ s.toList := by
  rcases ofText_cases ctx s with hform | ⟨-, hnewline⟩ | ⟨hform, -⟩
  · exact StringLit.noConfusion (hform.symm.trans h)
  · exact hnewline
  · exact StringLit.noConfusion (hform.symm.trans h)

/-- **The choice of a form and its spelling agree.**  The bare form is chosen exactly for the
texts that have no blank at either end and no character that opens a string of another kind, that
are spelled as they are, and that are not taken for something else: neither empty nor, in a
value, the word `null`.  A text for which it is chosen is spelled as it is, except that in a key
the word `null` has a backslash in front.  A text for which single quotes are chosen has no line
feed, and taking the doubled quotes of its spelling for single ones gives it back. -/
theorem ofText_agrees (ctx : Context) (s : String) :
    ((∃ pieces span, ofText ctx s = .unquoted pieces span) ↔
      s ≠ "" ∧ ¬(ctx = .value ∧ Text.isNull s = true) ∧ Text.trim s = s ∧
        (∀ c ∈ s.toList, Escape.isOpener c = false) ∧ Escape.unquotedPiece ctx true s = s) ∧
    ((∃ pieces span, ofText ctx s = .unquoted pieces span) →
      Escape.unquoted ctx s =
        if ctx = .key ∧ Text.isNull s = true then "\\" ++ s else s) ∧
    ((∃ content span, ofText ctx s = .singleQuoted content span) →
      '\n' ∉ s.toList ∧ Escape.undoubled (Escape.singleQuoted s).toList = s.toList) := by
  refine ⟨?_, ?_, ?_⟩
  · rw [exists_ofText_eq_unquoted_iff, Context.admitsBare_iff, Context.anyActive_eq_false_iff,
      Context.isReadAsOther_eq_false_iff, ← Escape.toList_unquotedPiece, String.toList_inj,
      and_assoc, and_comm (b := Text.trim s = s)]
  · rw [exists_ofText_eq_unquoted_iff]
    intro hbare
    have hother := ((ctx.admitsBare_iff s).mp hbare).1
    rw [Context.isReadAsOther_eq_false_iff] at hother
    rw [Escape.unquoted_of_admitsBare hbare]
    cases ctx with
    | key => simp
    | value =>
      have hnull : Text.isNull s = false := by simpa using hother.2
      simp [hnull]
  · rintro ⟨content, span, h⟩
    have hnewline := newline_notMem_of_ofText_eq_singleQuoted h
    refine ⟨hnewline, ?_⟩
    rw [Escape.toList_singleQuoted_eq_doubled, Escape.undoubled_doubled,
      Text.newlinesSpelled_of_notMem hnewline]

/-- The exception is a name that is chosen to be bare, and a text with both kinds of quotes stands
between single ones. -/
theorem ofText_agrees_nameNull :
    (∃ pieces span, ofText .key "Null" = .unquoted pieces span) ∧
      Escape.unquoted .key "Null" = "\\Null" ∧
      (∃ content span, ofText .value "\"it\x27s\"" = .singleQuoted content span) ∧
      Escape.undoubled (Escape.singleQuoted "\"it\x27s\"").toList = "\"it\x27s\"".toList := by
  have hbare : ∃ pieces span, ofText .key "Null" = .unquoted pieces span :=
    (exists_ofText_eq_unquoted_iff .key "Null").mpr (by decide +kernel)
  have hsingle : ∃ content span, ofText .value "\"it\x27s\"" = .singleQuoted content span := by
    refine ⟨"\"it\x27s\"", .unset, ?_⟩
    rw [ofText, if_neg (by decide +kernel), if_pos (by decide +kernel)]
  have hspelled := (ofText_agrees .key "Null").2.1 hbare
  rw [if_pos (by decide +kernel)] at hspelled
  exact ⟨hbare, hspelled, hsingle, ((ofText_agrees .value _).2.2 hsingle).2⟩

end StringLit

end DiagramText
