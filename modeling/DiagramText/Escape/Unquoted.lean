import DiagramText.Context
import DiagramText.Text.LetterCase

/-!
# Text without quotes

A string can also be written bare, with a backslash in front of each character
that would otherwise end it or change its meaning.  Which characters these are
depends on the context, on the position and on the character that follows
(`needsBackslash`).  A quote or a pipe at the very start would open a string of
another kind, and is escaped there and only there.  Of the other characters a
backslash stands in front of those that are active at their place: the decision is
made here once more, and that it is the one of `Context.isActive` is a lemma
(`needsBackslash_of_not_isOpener`).  A line feed is written as `\n`.

A bare string may be interrupted by substitutions.  Its texts are then written
piece by piece, and only the piece that opens the string has a start
(`unquotedPiece`).  Two rules concern the whole string and belong to `unquoted`:
the empty string has no bare form and is written as a pair of double quotes, and
the word `null`, which would be read as the null value, gets a backslash in
front.
-/

namespace DiagramText
namespace Escape

/-- Whether a character opens a string of another kind: a quoted one, or a block. -/
def isOpener (c : Char) : Bool := c == '"' || c == '\x27' || c == '|'

/-- Whether a bare character takes a backslash at the given place. -/
def needsBackslash (ctx : Context) (opening : Bool) (c : Char) (next : Option Char) : Bool :=
  if isOpener c then opening
  else
    match ctx with
    | .key =>
        if c = '-' then next == some '-'
        else if c = '&' then opening
        else Context.key.isSpecial c
    | .value => Context.value.isSpecial c

/-- How one character of a bare string is written. -/
def unquotedChar (ctx : Context) (opening : Bool) (c : Char) (next : Option Char) : List Char :=
  if c = '\n' then ['\\', 'n']
  else if needsBackslash ctx opening c next then ['\\', c]
  else [c]

/-- How a text of a bare string is written.  `opening` says that nothing of the
string has been written yet. -/
def unquotedChars (ctx : Context) : Bool → List Char → List Char
  | _, [] => []
  | opening, c :: rest => unquotedChar ctx opening c rest.head? ++ unquotedChars ctx false rest

/-- How one of the texts of a bare string is written. -/
def unquotedPiece (ctx : Context) (opening : Bool) (s : String) : String :=
  String.ofList (unquotedChars ctx opening s.toList)

/-- How a string that is a single text is written bare. -/
def unquoted (ctx : Context) (s : String) : String :=
  if s.isEmpty then "\"\""
  else if Text.isNull s then "\\" ++ s
  else unquotedPiece ctx true s

/-- A character that opens a string of another kind takes a backslash at the start. -/
theorem needsBackslash_of_isOpener {c : Char} (h : isOpener c = true) (ctx : Context)
    (opening : Bool) (next : Option Char) : needsBackslash ctx opening c next = opening := by
  unfold needsBackslash
  rw [if_pos h]

/-- Any other character takes a backslash where it is active. -/
theorem needsBackslash_of_not_isOpener {c : Char} (h : isOpener c = false) (ctx : Context)
    (opening : Bool) (next : Option Char) :
    needsBackslash ctx opening c next = ctx.isActive opening c next := by
  unfold needsBackslash
  rw [h, if_neg Bool.false_ne_true]
  cases ctx <;> rfl

@[simp] theorem toList_unquotedPiece (ctx : Context) (opening : Bool) (s : String) :
    (unquotedPiece ctx opening s).toList = unquotedChars ctx opening s.toList := by
  simp [unquotedPiece]

@[simp] theorem unquotedChars_nil (ctx : Context) (opening : Bool) :
    unquotedChars ctx opening [] = [] := rfl

@[simp] theorem unquotedChars_cons (ctx : Context) (opening : Bool) (c : Char)
    (cs : List Char) :
    unquotedChars ctx opening (c :: cs) =
      unquotedChar ctx opening c cs.head? ++ unquotedChars ctx false cs := rfl

/-- Every character is written, so no written character is the empty text. -/
theorem unquotedChar_ne_nil (ctx : Context) (opening : Bool) (c : Char) (next : Option Char) :
    unquotedChar ctx opening c next ≠ [] := by
  unfold unquotedChar
  split
  · simp
  · split <;> simp

/-- A text is written as the empty text only if it is empty. -/
theorem unquotedChars_eq_nil_iff (ctx : Context) (opening : Bool) (cs : List Char) :
    unquotedChars ctx opening cs = [] ↔ cs = [] := by
  cases cs with
  | nil => simp
  | cons c cs => simp [unquotedChar_ne_nil]

/-- What is written for a bare text stands on one line. -/
theorem newline_notMem_unquotedChars (ctx : Context) (opening : Bool) (cs : List Char) :
    '\n' ∉ unquotedChars ctx opening cs := by
  induction cs generalizing opening with
  | nil => simp
  | cons c cs ih =>
      rw [unquotedChars_cons, List.mem_append, not_or]
      refine ⟨?_, ih false⟩
      by_cases hc : c = '\n'
      · simp [unquotedChar, hc]
      · rw [unquotedChar, if_neg hc]
        split <;> simp [Ne.symm hc]

/-- A string that is a single text is never written as nothing. -/
theorem unquoted_ne_empty (ctx : Context) (s : String) : unquoted ctx s ≠ "" := by
  unfold unquoted
  split
  · decide
  · split
    · intro h
      have := congrArg String.toList h
      simp at this
    · intro h
      have h' := congrArg String.toList h
      rw [toList_unquotedPiece] at h'
      simp_all [unquotedChars_eq_nil_iff]

end Escape
end DiagramText
