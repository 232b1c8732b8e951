import DiagramText.Span

/-!
# Strings, key paths and scalars

The leaves of a diagram are strings, and a string can be written in four ways:
bare, between double quotes, between single quotes, or as a block between pipes.
The tree keeps the way it was written, because the printer does.

Bare and double-quoted strings may refer to variables, as in `x-${size}-y`.  Such
a string is a list of **pieces**, each a text or a substitution; the text of a
piece is what is meant, without any escapes.  A substitution names its variable
by a key path, and the segments of a key path are strings again, so strings, key
paths and substitutions are one family of types.

The list of pieces is kept as it is.  An empty list, a single empty text and a
row of empty texts are three trees, although they are printed alike.
-/

namespace DiagramText

/-- A string written as a block, `|md … |`. -/
structure BlockString where
  /-- The text of the block. -/
  text : String
  /-- The language of the text, written after the opening fence. -/
  tag : String := ""
  /-- What the author wrote between the pipe and the text to keep the two apart. -/
  quote : String := ""
  span : Span := .unset
  deriving DecidableEq

mutual

/-- A part of a string with substitutions. -/
inductive Piece where
  /-- Literal text, free of escapes. -/
  | text (content : String)
  /-- A reference to a variable. -/
  | substitution (reference : Substitution)

/-- A reference to a variable: `${path}`, or `...${path}` when its fields are to
be spread into the surrounding map. -/
structure Substitution where
  spread : Bool
  path : KeyPath
  span : Span

/-- A dotted path of strings. -/
structure KeyPath where
  segments : List StringLit
  span : Span

/-- A string, in the form in which it is written. -/
inductive StringLit where
  /-- A string without quotes. -/
  | unquoted (pieces : List Piece) (span : Span)
  /-- A string between double quotes. -/
  | doubleQuoted (pieces : List Piece) (span : Span)
  /-- A string between single quotes. -/
  | singleQuoted (content : String) (span : Span)
  /-- A string between pipes. -/
  | block (content : BlockString)

end

namespace StringLit

/-- A string without quotes that is a single text, outside every source. -/
def bare (s : String) : StringLit := .unquoted [.text s] .unset

/-- The place where a string is written. -/
def span : StringLit → Span
  | .unquoted _ span => span
  | .doubleQuoted _ span => span
  | .singleQuoted _ span => span
  | .block content => content.span

end StringLit

/-! ## What a string says

The *plain text* of a string is its text with every substitution shown in the
form `${path}`, where the path is the plain text of its segments with dots
between.  It says what the string means and not how it is written: `a.b` as one
segment and `a` followed by `b` have the same plain text. -/

mutual

/-- The text of a string, with its substitutions shown. -/
def StringLit.plainText : StringLit → String
  | .unquoted pieces _ => Piece.plainTexts pieces
  | .doubleQuoted pieces _ => Piece.plainTexts pieces
  | .singleQuoted content _ => content
  | .block content => content.text

/-- The texts of the pieces of a string, one after the other. -/
def Piece.plainTexts : List Piece → String
  | [] => ""
  | .text content :: rest => content ++ Piece.plainTexts rest
  | .substitution reference :: rest => reference.plainText ++ Piece.plainTexts rest

/-- A substitution shown in a text.  Whether it spreads is not shown. -/
def Substitution.plainText : Substitution → String
  | ⟨_, path, _⟩ => "$\x7b" ++ path.plainText ++ "\x7d"

/-- The text of a key path: the texts of its segments, with dots between. -/
def KeyPath.plainText : KeyPath → String
  | ⟨segments, _⟩ => String.intercalate "." (StringLit.plainTexts segments)

/-- The text of each segment of a key path. -/
def StringLit.plainTexts : List StringLit → List String
  | [] => []
  | segment :: rest => segment.plainText :: StringLit.plainTexts rest

end

@[simp] theorem StringLit.plainTexts_eq_map (segments : List StringLit) :
    StringLit.plainTexts segments = segments.map StringLit.plainText := by
  induction segments with
  | nil => rfl
  | cons segment rest ih => rw [StringLit.plainTexts, ih, List.map_cons]

@[simp] theorem StringLit.plainText_bare (s : String) : (StringLit.bare s).plainText = s := by
  simp [StringLit.bare, StringLit.plainText, Piece.plainTexts]

namespace KeyPath

/-- A key path of strings without quotes, outside every source. -/
def ofTexts (texts : List String) : KeyPath := ⟨texts.map StringLit.bare, .unset⟩

/-- The text of the only segment of a key path that has exactly one. -/
def single? (path : KeyPath) : Option String :=
  match path.segments with
  | [segment] => some segment.plainText
  | _ => none

/-- A key path has a single text exactly when it is one segment with that text. -/
theorem single?_eq_some_iff (path : KeyPath) (s : String) :
    path.single? = some s ↔ ∃ segment, path.segments = [segment] ∧ segment.plainText = s := by
  unfold single?
  split
  · rename_i segment h
    simp [h]
  · rename_i h
    constructor
    · intro h'
      exact absurd h' (by simp)
    · rintro ⟨segment, hs, -⟩
      exact absurd hs (h segment)

end KeyPath

/-- A value that is not made of other values. -/
inductive Scalar where
  /-- The null value. -/
  | null (span : Span)
  /-- Takes a part of the diagram out of the picture, or puts it back. -/
  | suspension (suspend : Bool) (span : Span)
  /-- A truth value. -/
  | boolean (value : Bool) (span : Span)
  /-- A number, kept as it was written. -/
  | number (raw : String) (span : Span)
  /-- A string. -/
  | string (content : StringLit)

/-- The place where a scalar is written. -/
def Scalar.span : Scalar → Span
  | .null span => span
  | .suspension _ span => span
  | .boolean _ span => span
  | .number _ span => span
  | .string content => content.span

end DiagramText
