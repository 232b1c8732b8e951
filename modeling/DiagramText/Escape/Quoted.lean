import DiagramText.Context

/-!
# Text between quotes

Two of the ways to write a string put it between quotes.

* Between **single quotes** there is no escape character: the quote itself is
  written twice.  A line feed has to be written somehow, and becomes the two
  characters `\n`; a reader cannot tell them from a backslash and an `n` of the
  text, which is why text with a line feed is better put between double quotes.
* Between **double quotes** a backslash takes away the meaning of the character
  after it.  The quote, the backslash and the line feed are written with one, and
  in a value so is the dollar sign, which would start a substitution.  Keys hold
  no substitution between double quotes, and there the dollar sign is bare.

Both act on one character at a time, so they turn the concatenation of two texts
into the concatenation of what is written for them.
-/

namespace DiagramText
namespace Escape

/-- How one character is written between single quotes. -/
def singleQuotedChar (c : Char) : List Char :=
  if c = '\x27' then ['\x27', '\x27']
  else if c = '\n' then ['\\', 'n']
  else [c]

/-- How a text is written between single quotes. -/
def singleQuotedChars (cs : List Char) : List Char := cs.flatMap singleQuotedChar

/-- How a string is written between single quotes. -/
def singleQuoted (s : String) : String := String.ofList (singleQuotedChars s.toList)

/-- How one character is written between double quotes. -/
def doubleQuotedChar (ctx : Context) (c : Char) : List Char :=
  if c = '\n' then ['\\', 'n']
  else if c = '"' ∨ c = '\\' ∨ (c = '$' ∧ ctx = .value) then ['\\', c]
  else [c]

/-- How a text is written between double quotes. -/
def doubleQuotedChars (ctx : Context) (cs : List Char) : List Char :=
  cs.flatMap (doubleQuotedChar ctx)

/-- How a string is written between double quotes. -/
def doubleQuoted (ctx : Context) (s : String) : String :=
  String.ofList (doubleQuotedChars ctx s.toList)

@[simp] theorem toList_singleQuoted (s : String) :
    (singleQuoted s).toList = singleQuotedChars s.toList := by
  simp [singleQuoted]

@[simp] theorem toList_doubleQuoted (ctx : Context) (s : String) :
    (doubleQuoted ctx s).toList = doubleQuotedChars ctx s.toList := by
  simp [doubleQuoted]

@[simp] theorem singleQuotedChars_nil : singleQuotedChars [] = [] := rfl

@[simp] theorem singleQuotedChars_cons (c : Char) (cs : List Char) :
    singleQuotedChars (c :: cs) = singleQuotedChar c ++ singleQuotedChars cs := by
  simp [singleQuotedChars]

@[simp] theorem singleQuotedChars_append (as bs : List Char) :
    singleQuotedChars (as ++ bs) = singleQuotedChars as ++ singleQuotedChars bs := by
  simp [singleQuotedChars]

@[simp] theorem doubleQuotedChars_nil (ctx : Context) : doubleQuotedChars ctx [] = [] := rfl

@[simp] theorem doubleQuotedChars_cons (ctx : Context) (c : Char) (cs : List Char) :
    doubleQuotedChars ctx (c :: cs) = doubleQuotedChar ctx c ++ doubleQuotedChars ctx cs := by
  simp [doubleQuotedChars]

@[simp] theorem doubleQuotedChars_append (ctx : Context) (as bs : List Char) :
    doubleQuotedChars ctx (as ++ bs) =
      doubleQuotedChars ctx as ++ doubleQuotedChars ctx bs := by
  simp [doubleQuotedChars]

/-- What is written between single quotes stands on one line. -/
theorem newline_notMem_singleQuotedChars (cs : List Char) : '\n' ∉ singleQuotedChars cs := by
  induction cs with
  | nil => simp
  | cons c cs ih =>
      rw [singleQuotedChars_cons, List.mem_append, not_or]
      refine ⟨?_, ih⟩
      by_cases hc : c = '\n'
      · simp [singleQuotedChar, hc]
      · rw [singleQuotedChar, if_neg hc]
        split <;> simp [Ne.symm hc]

/-- What is written between double quotes stands on one line. -/
theorem newline_notMem_doubleQuotedChars (ctx : Context) (cs : List Char) :
    '\n' ∉ doubleQuotedChars ctx cs := by
  induction cs with
  | nil => simp
  | cons c cs ih =>
      rw [doubleQuotedChars_cons, List.mem_append, not_or]
      refine ⟨?_, ih⟩
      by_cases hc : c = '\n'
      · simp [doubleQuotedChar, hc]
      · rw [doubleQuotedChar, if_neg hc]
        split <;> simp [Ne.symm hc]

end Escape
end DiagramText
