import DiagramText.Context
import DiagramText.Keyword
import DiagramText.Text.Blank
import DiagramText.Text.Lines
import DiagramText.Tree.Literal

/-!
# Choosing how to write a text

A program that has a text and wants a string of the diagram language has a choice
between the ways of writing one.  `StringLit.ofText` takes the least intrusive
one that keeps the text whole:

* **bare** if no character of the text is active in its context, if there is no
  blank at either end, and if the text would not be read as something else: it is
  neither empty nor, in a value, the word `null`;
* otherwise **double quotes**, unless the text has a double quote in it;
* and then **single quotes**, unless the text has a line feed in it, which single
  quotes cannot hold.

A segment of a key path has one rule more (`StringLit.ofSegment`).  Bare reserved
words are printed in lower case, so a segment that spells a reserved word with a
capital letter is put between double quotes.
-/

namespace DiagramText

/-- Whether some character of a bare text is active. -/
def Context.anyActive (ctx : Context) : Bool → List Char → Bool
  | _, [] => false
  | opening, c :: rest => ctx.isActive opening c rest.head? || anyActive ctx false rest

/-- Whether a text would be read as something else than a string if it were
written bare.  In a key `null` is a name like any other. -/
def Context.isReadAsOther (ctx : Context) (s : String) : Bool :=
  s.isEmpty || (ctx == .value && Text.isNull s)

/-- A bare text is taken for something else if it is empty, or in a value if it is the word
`null`. -/
theorem Context.isReadAsOther_eq_false_iff (ctx : Context) (s : String) :
    ctx.isReadAsOther s = false ↔ s ≠ "" ∧ ¬(ctx = .value ∧ Text.isNull s = true) := by
  rw [isReadAsOther, Bool.or_eq_false_iff, String.isEmpty_eq_false_iff, ← Bool.not_eq_true,
    Bool.and_eq_true, beq_iff_eq]

/-- Whether a text can be written bare without a single escape. -/
def Context.admitsBare (ctx : Context) (s : String) : Bool :=
  !ctx.isReadAsOther s && !ctx.anyActive true s.toList && Text.trim s == s

namespace StringLit

/-- The string that writes a text in the least intrusive way. -/
def ofText (ctx : Context) (s : String) : StringLit :=
  if ctx.admitsBare s then .bare s
  else if s.toList.contains '"' && !Text.hasNewline s then .singleQuoted s .unset
  else .doubleQuoted [.text s] .unset

/-- The string that writes a segment of a key path so that it keeps its case. -/
def ofSegment (s : String) : StringLit :=
  if Keyword.isReserved s && Text.hasUpper s then .doubleQuoted [.text s] .unset
  else ofText .key s

/-- The three forms that a text is written in, and what is known of the text then. -/
theorem ofText_cases (ctx : Context) (s : String) :
    ofText ctx s = .doubleQuoted [.text s] .unset ∨
      (ofText ctx s = .singleQuoted s .unset ∧ '\n' ∉ s.toList) ∨
      (ofText ctx s = .bare s ∧ ctx.admitsBare s = true) := by
  unfold ofText
  split
  · rename_i hbare
    exact .inr (.inr ⟨rfl, hbare⟩)
  · split
    · rename_i hsingle
      refine .inr (.inl ⟨rfl, ?_⟩)
      simpa [Text.hasNewline] using (Bool.and_eq_true_iff.mp hsingle).2
    · exact .inl rfl

/-- However a text is written, the string says that text. -/
@[simp] theorem plainText_ofText (ctx : Context) (s : String) : (ofText ctx s).plainText = s := by
  rcases ofText_cases ctx s with hform | ⟨hform, -⟩ | ⟨hform, -⟩
  · simp [hform, plainText, Piece.plainTexts]
  · simp [hform, plainText]
  · rw [hform, plainText_bare]

/-- A segment says the text that it was made from. -/
@[simp] theorem plainText_ofSegment (s : String) : (ofSegment s).plainText = s := by
  unfold ofSegment
  split
  · simp [plainText, Piece.plainTexts]
  · exact plainText_ofText .key s

end StringLit

end DiagramText
