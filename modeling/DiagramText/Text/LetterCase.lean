/-!
# Upper and lower case of the Latin letters

Case plays a part in two places, the reserved words and the word `null`, and both
look at the 26 Latin letters only.  A letter outside that range keeps its case,
so the Kelvin sign is not a `k` and the dotless `ı` is not an `i`.  Lower case is
`String.toLower`, which has just that range.
-/

namespace DiagramText
namespace Text

/-- Whether the text has one of the letters `A` to `Z`. -/
def hasUpper (s : String) : Bool := s.toList.any Char.isUpper

/-- Whether the text spells `null` in some mixture of cases. -/
def isNull (s : String) : Bool := s.toLower == "null"

@[simp] theorem toList_toLower (s : String) : s.toLower.toList = s.toList.map Char.toLower :=
  String.toList_map

/-- A letter in lower case stays as it is. -/
@[simp] theorem toLower_toLower (c : Char) : c.toLower.toLower = c.toLower := by
  unfold Char.toLower
  split
  · simp
    grind
  · simp_all

/-- A text in lower case stays as it is. -/
@[simp] theorem toLower_toLower_text (s : String) : s.toLower.toLower = s.toLower := by
  apply String.toList_injective
  simp

/-- The word `null` is told by its lower case. -/
theorem isNull_iff (s : String) : isNull s = true ↔ s.toLower = "null" := by
  simp [isNull]

end Text
end DiagramText
