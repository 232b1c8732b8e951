/-!
# Keys and values

The same string is written in two kinds of place: as a segment of a key path and
as a value.  An unquoted string ends, or changes its meaning, at other characters
in the one than in the other: a colon or a dot ends a segment and is ordinary in
a value, while a dollar sign starts a substitution in a value and is ordinary in
a segment.

Two characters of a key matter only in some positions.  A hyphen is part of an
arrow when another hyphen follows it, and is ordinary otherwise, as in
`stroke-width`; an ampersand is a marker at the start of a key and nowhere else.
`Context.isActive` is the decision with the position taken into account, and
`Context.isSpecial` the bare table.
-/

namespace DiagramText

/-- The place a string is written in. -/
inductive Context where
  /-- A segment of a key path. -/
  | key
  /-- Anything else. -/
  | value
  deriving DecidableEq

namespace Context

/-- The characters that can end an unquoted string or change its meaning. -/
def specials : Context → List Char
  | key =>
      ['#', ';', '\n', '\\', '\x7b', '\x7d', '[', ']', '\x27', '"', '|', ':', '.', '-', '<', '>',
        '*', '&', '(', ')', '@']
  | value =>
      ['#', ';', '\n', '\\', '\x7b', '\x7d', '[', ']', '\x27', '"', '|', '$', '@']

/-- Whether a character is in the table of its context. -/
def isSpecial (ctx : Context) (c : Char) : Bool := ctx.specials.contains c

/-- Whether a character, at the given place of an unquoted string, ends it or
changes its meaning.  `opening` says that the character is the first one, and
`next` is the character after it. -/
def isActive (ctx : Context) (opening : Bool) (c : Char) (next : Option Char) : Bool :=
  match ctx with
  | value => isSpecial value c
  | key =>
      if c = '-' then next == some '-'
      else if c = '&' then opening
      else isSpecial key c

@[simp] theorem isActive_value (opening : Bool) (c : Char) (next : Option Char) :
    isActive value opening c next = isSpecial value c := rfl

theorem isActive_key_hyphen (opening : Bool) (next : Option Char) :
    isActive key opening '-' next = (next == some '-') := rfl

theorem isActive_key_of_ne {c : Char} (hyphen : c ≠ '-') (ampersand : c ≠ '&') (opening : Bool)
    (next : Option Char) : isActive key opening c next = isSpecial key c := by
  simp [isActive, hyphen, ampersand]

/-- Only characters of the table are ever active.  The positions restrict the
table and never add to it. -/
theorem isSpecial_of_isActive {ctx : Context} {opening : Bool} {c : Char} {next : Option Char}
    (h : ctx.isActive opening c next = true) : ctx.isSpecial c = true := by
  cases ctx with
  | value => simpa using h
  | key =>
      by_cases hyphen : c = '-'
      · subst hyphen; rfl
      · by_cases ampersand : c = '&'
        · subst ampersand; rfl
        · rwa [isActive_key_of_ne hyphen ampersand] at h

end Context

end DiagramText
