/-!
# The lines of a text

A text is cut at its line feeds and at nothing else: a carriage return or a
Unicode line separator is an ordinary character.  The cut keeps every piece, so a
text with `n` line feeds has `n + 1` lines, some of which may be empty, and the
empty text has one empty line.

**Joining undoes cutting** (`joinLines_splitLines`): nothing but the line feeds
themselves is lost, and no line holds one (`newline_notMem_of_mem_splitLines`).
-/

namespace DiagramText
namespace Text

/-- The lines of a text, cut at every line feed. -/
def splitLines : List Char → List (List Char)
  | [] => [[]]
  | c :: rest =>
      if c = '\n' then [] :: splitLines rest
      else match splitLines rest with
        | [] => [[c]]
        | line :: more => (c :: line) :: more

/-- Puts a line feed between any two neighbouring lines. -/
def joinLines : List (List Char) → List Char
  | [] => []
  | [line] => line
  | line :: next :: more => line ++ '\n' :: joinLines (next :: more)

/-- The lines of a string. -/
def lines (s : String) : List String := (splitLines s.toList).map String.ofList

/-- Whether a string spreads over more than one line. -/
def hasNewline (s : String) : Bool := s.toList.contains '\n'

theorem hasNewline_eq_false_iff (s : String) : hasNewline s = false ↔ '\n' ∉ s.toList := by
  simp [hasNewline]

@[simp] theorem splitLines_nil : splitLines [] = [[]] := rfl

@[simp] theorem splitLines_newline (cs : List Char) :
    splitLines ('\n' :: cs) = [] :: splitLines cs := rfl

/-- A text has at least one line. -/
theorem splitLines_ne_nil (cs : List Char) : splitLines cs ≠ [] := by
  induction cs with
  | nil => simp
  | cons c cs ih =>
      unfold splitLines
      split
      · simp
      · split <;> simp

/-- A character other than the line feed goes in front of the first line. -/
theorem splitLines_cons_of_ne {c : Char} (h : c ≠ '\n') (cs : List Char) :
    ∃ line more, splitLines cs = line :: more ∧
      splitLines (c :: cs) = (c :: line) :: more := by
  cases hs : splitLines cs with
  | nil => exact absurd hs (splitLines_ne_nil cs)
  | cons line more => exact ⟨line, more, rfl, by simp [splitLines, h, hs]⟩

/-- A text without a line feed is its only line. -/
theorem splitLines_of_notMem {cs : List Char} (h : '\n' ∉ cs) : splitLines cs = [cs] := by
  induction cs with
  | nil => rfl
  | cons c cs ih =>
      rw [List.mem_cons, not_or] at h
      rw [splitLines, if_neg (Ne.symm h.1), ih h.2]

/-- A first line that is extended in front extends the joined text in front. -/
theorem joinLines_cons_cons (c : Char) (line : List Char) (more : List (List Char)) :
    joinLines ((c :: line) :: more) = c :: joinLines (line :: more) := by
  cases more <;> rfl

/-- A line feed stands in front of every line but the first. -/
theorem joinLines_cons (line : List Char) (more : List (List Char)) :
    joinLines (line :: more) = line ++ more.flatMap fun next => '\n' :: next := by
  induction more generalizing line with
  | nil => simp [joinLines]
  | cons next more ih => rw [joinLines, ih, List.flatMap_cons, List.cons_append]

/-- Joining the lines of a text gives the text back. -/
theorem joinLines_splitLines (cs : List Char) : joinLines (splitLines cs) = cs := by
  induction cs with
  | nil => rfl
  | cons c cs ih =>
      by_cases hc : c = '\n'
      · subst hc
        cases hs : splitLines cs with
        | nil => exact absurd hs (splitLines_ne_nil cs)
        | cons line more =>
            rw [hs] at ih
            rw [splitLines_newline, hs, joinLines, ih, List.nil_append]
      · obtain ⟨line, more, hs, hcons⟩ := splitLines_cons_of_ne hc cs
        rw [hcons, joinLines_cons_cons, ← hs, ih]

/-- No line of a text holds a line feed. -/
theorem newline_notMem_of_mem_splitLines {cs line : List Char}
    (h : line ∈ splitLines cs) : '\n' ∉ line := by
  induction cs generalizing line with
  | nil => simp_all
  | cons c cs ih =>
      by_cases hc : c = '\n'
      · subst hc
        rcases List.mem_cons.1 (splitLines_newline cs ▸ h) with rfl | h'
        · simp
        · exact ih h'
      · obtain ⟨first, more, hs, hcons⟩ := splitLines_cons_of_ne hc cs
        rcases List.mem_cons.1 (hcons ▸ h) with rfl | h'
        · have hfirst : '\n' ∉ first := ih (hs ▸ List.mem_cons_self)
          simp [hfirst, Ne.symm hc]
        · exact ih (hs ▸ List.mem_cons_of_mem _ h')

/-- No line of a string holds a line feed. -/
theorem newline_notMem_of_mem_lines {s line : String} (h : line ∈ lines s) :
    '\n' ∉ line.toList := by
  obtain ⟨cs, hcs, rfl⟩ := List.mem_map.1 h
  rw [String.toList_ofList]
  exact newline_notMem_of_mem_splitLines hcs

end Text
end DiagramText
