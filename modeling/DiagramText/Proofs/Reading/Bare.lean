import DiagramText.Escape.Unquoted
import DiagramText.Proofs.Reading.Quoted

/-!
# Reading what stands without quotes

A bare string has no closing mark.  It ends where something stands that cannot
belong to it: a separator, a closing bracket or a line feed, and in a key also a
dot or a colon.  The reader `bare` is told by a test on the rest of the text
whether it has come to such a place.  A backslash takes the character after it out
of the test, and stands for a line feed in front of an `n`.

## Which characters give the end away

Some characters bear a backslash wherever they stand in a bare string.  They are
the *guarded* ones (`isGuarded`): the characters of the table of the context, less
those whose position matters.  A guarded character without a backslash therefore
is not part of the string, and the characters that end one are all guarded.

There is one difficulty.  The brace that closes a map has a space in front of it,
and a space is not guarded.  But the brace is, so a space belongs to the string
exactly if no brace follows it, and looking one character ahead is enough
(`closes`).

**Reading undoes writing** (`bare_unquotedChars_append`) in front of everything
that ends a bare string.
-/

namespace DiagramText

namespace Escape

/-- Whether a character bears a backslash wherever it stands in a bare string. -/
def isGuarded (ctx : Context) (c : Char) : Bool :=
  ctx.isSpecial c && !isOpener c && c != '-' && c != '&'

variable {ctx : Context} {opening : Bool} {c d : Char} {next : Option Char}

/-- A guarded character takes a backslash in every position. -/
theorem needsBackslash_of_isGuarded (h : isGuarded ctx c = true) :
    needsBackslash ctx opening c next = true := by
  simp only [isGuarded, Bool.and_eq_true, Bool.not_eq_true', bne_iff_ne] at h
  obtain ⟨⟨⟨hspecial, hopener⟩, hhyphen⟩, hampersand⟩ := h
  rw [needsBackslash_of_not_isOpener hopener]
  cases ctx with
  | value => exact hspecial
  | key => rw [Context.isActive_key_of_ne hhyphen hampersand, hspecial]

/-- A character is written with a backslash in front or as it is. -/
theorem unquotedChar_cases (ctx : Context) (opening : Bool) (c : Char) (next : Option Char) :
    (c = '\n' ∧ unquotedChar ctx opening c next = ['\\', 'n']) ∨
      (c ≠ '\n' ∧ needsBackslash ctx opening c next = true ∧
        unquotedChar ctx opening c next = ['\\', c]) ∨
      (c ≠ '\n' ∧ needsBackslash ctx opening c next = false ∧
        unquotedChar ctx opening c next = [c]) := by
  by_cases hnewline : c = '\n'
  · exact Or.inl ⟨hnewline, by rw [unquotedChar, if_pos hnewline]⟩
  · cases hactive : needsBackslash ctx opening c next with
    | true =>
        refine Or.inr (Or.inl ⟨hnewline, rfl, ?_⟩)
        rw [unquotedChar, if_neg hnewline, if_pos hactive]
    | false =>
        refine Or.inr (Or.inr ⟨hnewline, rfl, ?_⟩)
        rw [unquotedChar, if_neg hnewline, hactive, if_neg Bool.false_ne_true]

/-- The letter `n` is never written with a backslash. -/
theorem ne_n_of_needsBackslash (h : needsBackslash ctx opening c next = true) : c ≠ 'n' := by
  rintro rfl
  rw [needsBackslash_of_not_isOpener rfl] at h
  exact absurd (Context.isSpecial_of_isActive h) (by cases ctx <;> decide)

/-- A character without a backslash is not a guarded one. -/
theorem ne_of_isGuarded (h : needsBackslash ctx opening c next = false)
    (hd : isGuarded ctx d = true) : c ≠ d := by
  rintro rfl
  rw [needsBackslash_of_isGuarded hd] at h
  exact absurd h (by simp)

/-- What is written for a character does not start with a character that would take
a backslash in its place. -/
theorem head?_unquotedChar_append_ne (hd : needsBackslash ctx opening d next = true)
    (hbackslash : d ≠ '\\') (c : Char) (rest : List Char) :
    (unquotedChar ctx opening c next ++ rest).head? ≠ some d := by
  rcases unquotedChar_cases ctx opening c next with ⟨-, hc⟩ | ⟨-, -, hc⟩ | ⟨-, hplain, hc⟩
  · rw [hc]
    simpa using Ne.symm hbackslash
  · rw [hc]
    simpa using Ne.symm hbackslash
  · rw [hc, List.singleton_append, List.head?_cons]
    intro heq
    rw [Option.some.inj heq, hd] at hplain
    exact absurd hplain (by simp)

/-- What is written for a text does not start with a given character, if that is
guarded and is not the backslash itself. -/
theorem head?_unquotedChars_append_ne (hd : isGuarded ctx d = true) (hbackslash : d ≠ '\\')
    (opening : Bool) (cs : List Char) {rest : List Char}
    (hrest : cs = [] → rest.head? ≠ some d) :
    (unquotedChars ctx opening cs ++ rest).head? ≠ some d := by
  cases cs with
  | nil => exact hrest rfl
  | cons c cs =>
      rw [unquotedChars_cons, List.append_assoc]
      exact head?_unquotedChar_append_ne (needsBackslash_of_isGuarded hd) hbackslash c _

/-- What is written for a whole string does not open a string of another kind. -/
theorem head?_unquotedChars_true_append_ne (hd : isOpener d = true) {cs : List Char}
    (hne : cs ≠ []) (rest : List Char) :
    (unquotedChars ctx true cs ++ rest).head? ≠ some d := by
  obtain ⟨c, cs, rfl⟩ := List.exists_cons_of_ne_nil hne
  have hbackslash : d ≠ '\\' := by
    rintro rfl
    exact absurd hd (by decide)
  have hopening := needsBackslash_of_isOpener hd ctx true cs.head?
  rw [unquotedChars_cons, List.append_assoc]
  exact head?_unquotedChar_append_ne hopening hbackslash c _

/-- A string that is neither empty nor the word `null` is written as its text. -/
theorem toList_unquoted {s : String} (hne : s ≠ "") (hnull : Text.isNull s = false) :
    (unquoted ctx s).toList = unquotedChars ctx true s.toList := by
  have hempty : s.isEmpty = false := by simpa using hne
  rw [unquoted, hempty, if_neg Bool.false_ne_true, hnull, if_neg Bool.false_ne_true,
    toList_unquotedPiece]

end Escape

namespace Reading

/-- Reads a bare string up to the place where the test says that it ends.  The
result is its text and what follows. -/
def bare (stops : List Char → Bool) : List Char → List Char × List Char
  | [] => ([], [])
  | '\\' :: c :: rest => pushed [if c = 'n' then '\n' else c] (bare stops rest)
  | c :: rest => if stops (c :: rest) then ([], c :: rest) else pushed [c] (bare stops rest)

theorem bare_escape (stops : List Char → Bool) (c : Char) (rest : List Char) :
    bare stops ('\\' :: c :: rest) = pushed [if c = 'n' then '\n' else c] (bare stops rest) := by
  simp [bare]

theorem bare_of_ne {c : Char} (h : c ≠ '\\') (stops : List Char → Bool) (rest : List Char) :
    bare stops (c :: rest) =
      if stops (c :: rest) then ([], c :: rest) else pushed [c] (bare stops rest) := by
  rw [bare]
  rintro d tail rfl
  exact absurd rfl h

/-- One written character is read as the character that it was written for, if
the test does not stop the reader in front of it. -/
theorem bare_unquotedChar_append {stops : List Char → Bool} {ctx : Context} {opening : Bool}
    {c : Char} {next : Option Char} {rest : List Char}
    (h : Escape.needsBackslash ctx opening c next = false → stops (c :: rest) = false) :
    bare stops (Escape.unquotedChar ctx opening c next ++ rest) =
      pushed [c] (bare stops rest) := by
  rcases Escape.unquotedChar_cases ctx opening c next with
    ⟨hnewline, hc⟩ | ⟨-, hactive, hc⟩ | ⟨-, hplain, hc⟩
  · rw [hc, hnewline]
    exact bare_escape stops 'n' rest
  · have hescape := bare_escape stops c rest
    rw [if_neg (Escape.ne_n_of_needsBackslash hactive)] at hescape
    rw [hc]
    exact hescape
  · have hbackslash : c ≠ '\\' := Escape.ne_of_isGuarded hplain (by cases ctx <;> rfl)
    rw [hc, List.singleton_append, bare_of_ne hbackslash, h hplain, if_neg Bool.false_ne_true]

/-! ## Where a bare string ends -/

/-- Whether what follows a value or an entry starts here: the end, a semicolon, a
closing bracket, a line feed, or the closing brace with its space. -/
def closes : List Char → Bool
  | [] => true
  | c :: rest => c == ';' || c == ']' || c == '\n' || (c == ' ' && rest.head? == some '\x7d')

/-- Whether a bare string ends here.  In a key it also ends at the next segment
and at the value. -/
def endsBare (ctx : Context) (text : List Char) : Bool :=
  closes text || (ctx == .key && (text.head? == some '.' || text.head? == some ':'))

theorem endsBare_of_closes {text : List Char} (h : closes text = true) (ctx : Context) :
    endsBare ctx text = true := by
  rw [endsBare, h, Bool.true_or]

/-- A place that a test accepts does not start with a character in front of which the
test accepts nothing. -/
theorem head?_ne_of_stops {stops : List Char → Bool} {d : Char} {text : List Char}
    (hd : ∀ rest, stops (d :: rest) = false) (h : stops text = true) :
    text.head? ≠ some d := by
  intro hhead
  obtain ⟨rest, rfl⟩ := List.head?_eq_some_iff.mp hhead
  rw [hd rest] at h
  exact absurd h (by simp)

/-- If a test accepts nothing in front of a backslash, the reader stops with nothing
read wherever the test accepts. -/
theorem bare_of_stops {stops : List Char → Bool} {text : List Char}
    (hbackslash : ∀ rest, stops ('\\' :: rest) = false) (h : stops text = true) :
    bare stops text = ([], text) := by
  cases text with
  | nil => rfl
  | cons c rest =>
      have hc : c ≠ '\\' := by
        rintro rfl
        exact head?_ne_of_stops hbackslash h rfl
      rw [bare_of_ne hc, if_pos h]

/-- Nothing that ends a bare string starts with a backslash, so the reader stops
there with nothing read. -/
theorem bare_of_endsBare {ctx : Context} {text : List Char} (h : endsBare ctx text = true) :
    bare (endsBare ctx) text = ([], text) :=
  bare_of_stops (fun _ => by cases ctx <;> rfl) h

/-- A character without a backslash does not end the string, unless it is a space
and the closing brace follows. -/
theorem endsBare_cons_of_plain {ctx : Context} {opening : Bool} {c : Char}
    {next : Option Char} {rest : List Char}
    (hplain : Escape.needsBackslash ctx opening c next = false)
    (hrest : rest.head? ≠ some '\x7d') (hnewline : c ≠ '\n') :
    endsBare ctx (c :: rest) = false := by
  have hsemicolon : c ≠ ';' := Escape.ne_of_isGuarded hplain (by cases ctx <;> rfl)
  have hbracket : c ≠ ']' := Escape.ne_of_isGuarded hplain (by cases ctx <;> rfl)
  have hclosed : closes (c :: rest) = false := by
    simp [closes, hsemicolon, hbracket, hnewline, hrest]
  cases ctx with
  | value => rw [endsBare, hclosed]; rfl
  | key =>
      have hdot : c ≠ '.' := Escape.ne_of_isGuarded hplain rfl
      have hcolon : c ≠ ':' := Escape.ne_of_isGuarded hplain rfl
      rw [endsBare, hclosed]
      simp [hdot, hcolon]

/-- **A bare text is read back**, up to the place where it ends and no further. -/
theorem bare_unquotedChars_append {ctx : Context} (opening : Bool) (cs : List Char)
    {rest : List Char} (hrest : endsBare ctx rest = true) :
    bare (endsBare ctx) (Escape.unquotedChars ctx opening cs ++ rest) = (cs, rest) := by
  induction cs generalizing opening with
  | nil => exact bare_of_endsBare hrest
  | cons c cs ih =>
      rw [Escape.unquotedChars_cons, List.append_assoc, bare_unquotedChar_append, ih]
      · rfl
      · intro hplain
        -- neither what is written for the rest nor what follows it starts with the brace,
        -- since the brace has a space in front
        have hbrace : (Escape.unquotedChars ctx false cs ++ rest).head? ≠ some '\x7d' :=
          Escape.head?_unquotedChars_append_ne (by cases ctx <;> rfl) (by decide) false cs
            fun _ => head?_ne_of_stops (fun _ => by cases ctx <;> rfl) hrest
        exact endsBare_cons_of_plain hplain hbrace
          (Escape.ne_of_isGuarded hplain (by cases ctx <;> rfl))

end Reading
end DiagramText
