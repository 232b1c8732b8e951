import DiagramText.Escape.Quoted

/-!
# Reading what stands between quotes

A quoted string is read from the character after its opening quote.  The reader
goes on to the quote that ends the string, and returns the text of the string
together with what follows that quote.

* Between **double quotes** the string ends at the first quote outside an escape.
  A backslash makes an escape of the character after it; the escapes that stand
  for something are those that the writer uses, and any other is left as it is.
* Between **single quotes** the string ends at the first quote that is not
  doubled, so the reader has to look one character ahead.  This is why what
  follows the string must not itself start with a single quote.

**Reading undoes writing** (`doubleQuoted_append`, `singleQuoted_append`), whatever
the text and whatever follows it.  The text between single quotes comes back with
its line feeds spelled out, since that is how they were written; a text without a
line feed comes back as it was (`singleQuoted_append_of_notMem`).
-/

namespace DiagramText
namespace Reading

/-- Puts characters in front of a text that has been read. -/
def pushed (front : List Char) (found : List Char × List Char) : List Char × List Char :=
  (front ++ found.1, found.2)

/-- What a backslash and the character after it stand for between double quotes. -/
def escapedChar (ctx : Context) (c : Char) : List Char :=
  if c = 'n' then ['\n']
  else if c = '"' ∨ c = '\\' ∨ (c = '$' ∧ ctx = .value) then [c]
  else ['\\', c]

/-- Reads a string between double quotes, from the character after the first
quote.  The result is its text and what follows the last quote. -/
def doubleQuoted (ctx : Context) : List Char → Option (List Char × List Char)
  | [] => none
  | '"' :: rest => some ([], rest)
  | '\\' :: c :: rest => (doubleQuoted ctx rest).map (pushed (escapedChar ctx c))
  | c :: rest => (doubleQuoted ctx rest).map (pushed [c])

/-- Reads a string between single quotes, from the character after the first
quote.  The result is its text and what follows the last quote. -/
def singleQuoted : List Char → Option (List Char × List Char)
  | [] => none
  | '\x27' :: '\x27' :: rest => (singleQuoted rest).map (pushed ['\x27'])
  | '\x27' :: rest => some ([], rest)
  | c :: rest => (singleQuoted rest).map (pushed [c])

/-! ## Double quotes -/

theorem doubleQuoted_quote (ctx : Context) (rest : List Char) :
    doubleQuoted ctx ('"' :: rest) = some ([], rest) := by
  simp [doubleQuoted]

theorem doubleQuoted_escape (ctx : Context) (c : Char) (rest : List Char) :
    doubleQuoted ctx ('\\' :: c :: rest) =
      (doubleQuoted ctx rest).map (pushed (escapedChar ctx c)) := by
  simp [doubleQuoted]

theorem doubleQuoted_of_ne {c : Char} (quote : c ≠ '"') (backslash : c ≠ '\\') (ctx : Context)
    (rest : List Char) :
    doubleQuoted ctx (c :: rest) = (doubleQuoted ctx rest).map (pushed [c]) := by
  rw [doubleQuoted]
  · exact quote
  · rintro d tail rfl
    exact absurd rfl backslash

/-- One written character is read as the character that it was written for. -/
theorem doubleQuoted_char_append (ctx : Context) (c : Char) (rest : List Char) :
    doubleQuoted ctx (Escape.doubleQuotedChar ctx c ++ rest) =
      (doubleQuoted ctx rest).map (pushed [c]) := by
  unfold Escape.doubleQuotedChar
  split
  · rename_i newline
    rw [newline]
    exact doubleQuoted_escape ctx 'n' rest
  · rename_i newline
    split
    · rename_i active
      have hn : c ≠ 'n' := by
        rintro rfl
        exact absurd active (by simp)
      have hread : escapedChar ctx c = [c] := by
        rw [escapedChar, if_neg hn, if_pos active]
      have hescape := doubleQuoted_escape ctx c rest
      rwa [hread] at hescape
    · rename_i inactive
      rw [not_or, not_or] at inactive
      exact doubleQuoted_of_ne inactive.1 inactive.2.1 ctx rest

/-- **Between double quotes a text is read back**, up to its closing quote and no
further. -/
theorem doubleQuoted_append (ctx : Context) (cs rest : List Char) :
    doubleQuoted ctx (Escape.doubleQuotedChars ctx cs ++ '"' :: rest) = some (cs, rest) := by
  induction cs with
  | nil => exact doubleQuoted_quote ctx rest
  | cons c cs ih =>
      rw [Escape.doubleQuotedChars_cons, List.append_assoc, doubleQuoted_char_append, ih]
      rfl

/-! ## Single quotes -/

/-- The characters that a reader finds for one character between single quotes: a
line feed has been spelled out. -/
def spelledOut (c : Char) : List Char := if c = '\n' then ['\\', 'n'] else [c]

theorem singleQuoted_doubled (rest : List Char) :
    singleQuoted ('\x27' :: '\x27' :: rest) = (singleQuoted rest).map (pushed ['\x27']) := by
  simp [singleQuoted]

/-- A quote ends the string if no other follows it. -/
theorem singleQuoted_quote {rest : List Char} (h : rest.head? ≠ some '\x27') :
    singleQuoted ('\x27' :: rest) = some ([], rest) := by
  rw [singleQuoted]
  rintro tail rfl
  exact h rfl

theorem singleQuoted_of_ne {c : Char} (h : c ≠ '\x27') (rest : List Char) :
    singleQuoted (c :: rest) = (singleQuoted rest).map (pushed [c]) := by
  rw [singleQuoted]
  · rintro tail rfl
    exact absurd rfl h
  · exact h

/-- One written character is read as its spelling. -/
theorem singleQuoted_char_append (c : Char) (rest : List Char) :
    singleQuoted (Escape.singleQuotedChar c ++ rest) =
      (singleQuoted rest).map (pushed (spelledOut c)) := by
  unfold Escape.singleQuotedChar spelledOut
  split
  · rename_i quote
    subst quote
    exact singleQuoted_doubled rest
  · rename_i quote
    split
    · -- the two characters of a line feed are ordinary ones to the reader
      rw [List.cons_append, singleQuoted_of_ne (by decide), List.cons_append,
        singleQuoted_of_ne (by decide), Option.map_map]
      rfl
    · exact singleQuoted_of_ne quote rest

/-- **Between single quotes a text is read back with its line feeds spelled out**,
up to its closing quote and no further. -/
theorem singleQuoted_append (cs : List Char) {rest : List Char}
    (h : rest.head? ≠ some '\x27') :
    singleQuoted (Escape.singleQuotedChars cs ++ '\x27' :: rest) =
      some (cs.flatMap spelledOut, rest) := by
  induction cs with
  | nil => exact singleQuoted_quote h
  | cons c cs ih =>
      rw [Escape.singleQuotedChars_cons, List.append_assoc, singleQuoted_char_append, ih]
      rfl

theorem flatMap_spelledOut_of_notMem {cs : List Char} (h : '\n' ∉ cs) :
    cs.flatMap spelledOut = cs := by
  induction cs with
  | nil => rfl
  | cons c cs ih =>
      rw [List.mem_cons, not_or] at h
      rw [List.flatMap_cons, ih h.2, spelledOut, if_neg (Ne.symm h.1), List.singleton_append]

/-- A text without a line feed is read back from between single quotes. -/
theorem singleQuoted_append_of_notMem {cs rest : List Char} (newline : '\n' ∉ cs)
    (h : rest.head? ≠ some '\x27') :
    singleQuoted (Escape.singleQuotedChars cs ++ '\x27' :: rest) = some (cs, rest) := by
  rw [singleQuoted_append cs h, flatMap_spelledOut_of_notMem newline]

end Reading
end DiagramText
