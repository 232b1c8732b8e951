import DiagramText.Text.LetterCase

/-!
# Reserved words

The diagram language gives a fixed meaning to 46 words when they are written
without quotes: attributes such as `shape`, style fields such as `stroke-width`,
and the names of the three groups of boards.  They are recognised in any mixture
of upper and lower case, and their one printed spelling is in lower case.

`canonical` is that printed spelling.  It changes the case of reserved words and
leaves every other text alone, so it acts once and for all
(`canonical_canonical`).
-/

namespace DiagramText
namespace Keyword

open Text

/-- The reserved words, in lower case. -/
def reserved : List String :=
  ["label", "shape", "icon", "constraint", "tooltip", "link", "near", "width", "height", "top",
    "left", "direction", "class", "classes", "vars", "style", "grid-rows", "grid-columns",
    "grid-gap", "vertical-gap", "horizontal-gap", "source-arrowhead", "target-arrowhead",
    "layers", "scenarios", "steps", "opacity", "stroke", "fill", "fill-pattern", "stroke-width",
    "stroke-dash", "border-radius", "font", "font-size", "font-color", "bold", "italic",
    "underline", "text-transform", "shadow", "multiple", "double-border", "3d", "animated",
    "filled"]

/-- Whether a text is a reserved word in some mixture of cases. -/
def isReserved (s : String) : Bool := reserved.contains s.toLower

/-- The spelling in which an unquoted text is printed: reserved words are put in
lower case. -/
def canonical (s : String) : String := if isReserved s then s.toLower else s

theorem isReserved_iff (s : String) : isReserved s = true ↔ s.toLower ∈ reserved := by
  simp [isReserved]

theorem canonical_of_isReserved {s : String} (h : isReserved s = true) :
    canonical s = s.toLower := by
  simp [canonical, h]

theorem canonical_of_not_isReserved {s : String} (h : isReserved s = false) :
    canonical s = s := by
  simp [canonical, h]

/-- A text is reserved in one mixture of cases when it is reserved in lower case. -/
@[simp] theorem isReserved_toLower (s : String) : isReserved s.toLower = isReserved s := by
  simp [isReserved]

/-- The canonical spelling is its own canonical spelling. -/
@[simp] theorem canonical_canonical (s : String) : canonical (canonical s) = canonical s := by
  cases h : isReserved s
  · rw [canonical_of_not_isReserved h, canonical_of_not_isReserved h]
  · rw [canonical_of_isReserved h, canonical_of_isReserved (by simpa using h), toLower_toLower_text]

end Keyword
end DiagramText
