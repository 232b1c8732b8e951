import DiagramText.Format

/-!
# The lines of a printed text

An indentation says what a level of indentation looks like, and the printer asks it
for nothing else.  The rest of a text is settled by the document: where its lines
begin, how deep each of them is, and what stands on them.  This file takes that part
of a text out of it.

* The **leaves** of a document are its texts and line breaks in their order.  What
  `indent` says about the breaks below it is written down with each of them: a hard
  line has the level of the place where it stands.
* The **lines** are the leaves cut at the line breaks.  A line has a level and a text,
  and remembers whether a bare line opened it; such a line is at level zero, because
  nothing is printed in front of its text.

**A text is its lines, each behind its indentation, with line feeds between**
(`Doc.print_eq_intercalate_lines`).  Neither the leaves nor the lines know the
indentation, so two texts of a document under different indentations differ in
nothing else.

A text that holds a line feed of its own is a single leaf, and its line is a single
line here.
-/

namespace DiagramText

/-! ## Leaves -/

/-- A text or a line break of a document. -/
inductive Leaf where
  | text (s : String)
  /-- A line break followed by the indentation of a level. -/
  | hardLine (level : Nat)
  /-- A line break followed by no indentation. -/
  | bareLine
  deriving DecidableEq

/-- What is printed for a leaf. -/
def Leaf.print (i : Indentation) : Leaf → String
  | text s => s
  | hardLine level => "\n" ++ i.text level
  | bareLine => "\n"

theorem Leaf.toList_print_hardLine (i : Indentation) (level : Nat) :
    ((hardLine level).print i).toList = '\n' :: i.chars level := by
  rw [print, String.toList_append, Indentation.toList_text]
  rfl

theorem Leaf.toList_print_bareLine (i : Indentation) : (bareLine.print i).toList = ['\n'] := by
  rw [print]
  rfl

/-- The level of the line that a leaf opens, if its indentation is printed. -/
def Leaf.level? : Leaf → Option Nat
  | hardLine level => some level
  | _ => none

namespace Doc

/-- The leaves of a document that stands at a level of indentation. -/
def leaves : Nat → Doc → List Leaf
  | _, nil => []
  | _, text s => [.text s]
  | n, hardLine => [.hardLine n]
  | _, bareLine => [.bareLine]
  | n, indent d => leaves (n + 1) d
  | n, cat a b => leaves n a ++ leaves n b

variable (n : Nat)

@[simp] theorem leaves_nil : leaves n nil = [] := by simp [leaves]

@[simp] theorem leaves_hardLine : leaves n hardLine = [.hardLine n] := by simp [leaves]

@[simp] theorem leaves_bareLine : leaves n bareLine = [.bareLine] := by simp [leaves]

theorem leaves_ofString (s : String) :
    leaves n (ofString s) = if s = "" then [] else [.text s] := by
  by_cases h : s = ""
  · rw [h, ofString_empty, leaves_nil, if_pos rfl]
  · rw [ofString_of_ne h, leaves, if_neg h]

@[simp] theorem leaves_nest (d : Doc) : leaves n d.nest = leaves (n + 1) d := by
  by_cases h : d = nil
  · rw [h, nest_nil, leaves_nil, leaves_nil]
  · rw [nest_of_ne h, leaves]

@[simp] theorem leaves_append (a b : Doc) : leaves n (a ++ b) = leaves n a ++ leaves n b := by
  by_cases ha : a = nil
  · simp [ha]
  · by_cases hb : b = nil
    · simp [hb]
    · rw [append_of_ne ha hb, leaves]

theorem leaves_concat (ds : List Doc) : leaves n (concat ds) = ds.flatMap (leaves n) := by
  have hfoldl : ∀ (ds : List Doc) (d : Doc),
      leaves n (ds.foldl (· ++ ·) d) = leaves n d ++ ds.flatMap (leaves n) := by
    intro ds
    induction ds with
    | nil => simp
    | cons e es ih =>
        intro d
        rw [List.foldl_cons, ih, leaves_append, List.flatMap_cons, List.append_assoc]
  rw [concat, hfoldl, leaves_nil, List.nil_append]

/-- A document prints what its leaves print. -/
theorem render_eq_join_leaves (i : Indentation) (d : Doc) :
    render i n d = String.join ((leaves n d).map (Leaf.print i)) := by
  induction d generalizing n with
  | nil => simp
  | text s => simp [leaves, Leaf.print]
  | hardLine => simp [Leaf.print]
  | bareLine => simp [Leaf.print]
  | indent d ih => rw [render_indent, leaves, ih]
  | cat a b iha ihb => rw [render_cat, leaves, iha, ihb, List.map_append, String.join_append]

/-- The printed text has the characters of the leaves one after the other. -/
theorem toList_print_eq_flatMap_leaves (i : Indentation) (d : Doc) :
    (d.print i).toList = (d.leaves 0).flatMap fun leaf => (leaf.print i).toList := by
  rw [print_eq_render, render_eq_join_leaves, String.toList_join, List.flatMap_map]

end Doc

/-! ## Lines -/

/-- A line of a printed text. -/
structure Line where
  /-- Whether the line is opened by a bare line. -/
  isBare : Bool
  /-- How deep the line is indented. -/
  level : Nat
  /-- What stands on the line behind its indentation. -/
  text : String
  deriving DecidableEq

namespace Line

/-- The line with which a text starts. -/
def first : Line := ⟨false, 0, ""⟩

/-- The line that a hard line opens. -/
def afterHard (level : Nat) : Line := ⟨false, level, ""⟩

/-- The line that a bare line opens. -/
def afterBare : Line := ⟨true, 0, ""⟩

/-- A line with a text written at its end. -/
def write (line : Line) (s : String) : Line := { line with text := line.text ++ s }

/-- What is printed for a line. -/
def print (i : Indentation) (line : Line) : String := i.text line.level ++ line.text

/-- The lines of a row of leaves that goes on with the given line. -/
def cut : Line → List Leaf → List Line
  | line, [] => [line]
  | line, .text s :: rest => cut (line.write s) rest
  | line, .hardLine level :: rest => line :: cut (afterHard level) rest
  | line, .bareLine :: rest => line :: cut afterBare rest

theorem print_write (i : Indentation) (line : Line) (s : String) :
    (line.write s).print i = line.print i ++ s :=
  (String.append_assoc ..).symm

theorem print_afterHard (i : Indentation) (level : Nat) :
    (afterHard level).print i = i.text level :=
  String.append_empty

theorem print_afterBare (i : Indentation) : afterBare.print i = "" := by
  rw [print, afterBare, Indentation.text_zero, String.append_empty]

/-- There is always a line to go on with, and it is the first one. -/
theorem exists_cut_eq_cons (line : Line) (leaves : List Leaf) :
    ∃ s more, cut line leaves = line.write s :: more := by
  induction leaves generalizing line with
  | nil => exact ⟨"", [], by simp [cut, write]⟩
  | cons leaf rest ih =>
      cases leaf with
      | text s =>
          obtain ⟨t, more, h⟩ := ih (line.write s)
          refine ⟨s ++ t, more, ?_⟩
          rw [cut, h, write, write, write, String.append_assoc]
      | hardLine level => exact ⟨"", cut (afterHard level) rest, by simp [cut, write]⟩
      | bareLine => exact ⟨"", cut afterBare rest, by simp [cut, write]⟩

/-- The lines of a row of leaves are a text with the first line in front of what the
leaves print. -/
theorem intercalate_cut (i : Indentation) (line : Line) (leaves : List Leaf) :
    String.intercalate "\n" ((cut line leaves).map (print i)) =
      line.print i ++ String.join (leaves.map (Leaf.print i)) := by
  -- a line that is closed by a break stands in front of the line that the break opens
  have hbreak : ∀ (line next : Line) (rest : List Leaf),
      String.intercalate "\n" ((line :: cut next rest).map (print i)) =
        line.print i ++ "\n" ++ String.intercalate "\n" ((cut next rest).map (print i)) := by
    intro line next rest
    obtain ⟨s, more, h⟩ := exists_cut_eq_cons next rest
    rw [h, List.map_cons, List.map_cons, String.intercalate_cons_cons]
  induction leaves generalizing line with
  | nil => simp [cut]
  | cons leaf rest ih =>
      cases leaf with
      | text s => rw [cut, ih, print_write, List.map_cons, String.join_cons, Leaf.print,
          String.append_assoc]
      | hardLine level =>
          rw [cut, hbreak, ih, print_afterHard, List.map_cons, String.join_cons, Leaf.print]
          simp only [String.append_assoc]
      | bareLine =>
          rw [cut, hbreak, ih, print_afterBare, List.map_cons, String.join_cons, Leaf.print]
          simp only [String.append_assoc, String.empty_append]

/-- Only bare lines open lines that are bare, and these are at level zero. -/
theorem level_eq_zero_of_mem_cut {line : Line} {leaves : List Leaf}
    (hline : line.isBare = true → line.level = 0) :
    ∀ l ∈ cut line leaves, l.isBare = true → l.level = 0 := by
  induction leaves generalizing line with
  | nil =>
      rw [cut, List.forall_mem_singleton]
      exact hline
  | cons leaf rest ih =>
      cases leaf with
      | text s => exact ih hline
      | hardLine level =>
          rw [cut, List.forall_mem_cons]
          exact ⟨hline, ih fun h => absurd h Bool.false_ne_true⟩
      | bareLine =>
          rw [cut, List.forall_mem_cons]
          exact ⟨hline, ih fun _ => rfl⟩

/-- The levels of the lines that are not bare are those of the hard lines, behind the
level of the first line. -/
theorem map_level_filter_cut (line : Line) (leaves : List Leaf) :
    ((cut line leaves).filter fun l => !l.isBare).map level =
      (if line.isBare then [] else [line.level]) ++ leaves.filterMap Leaf.level? := by
  induction leaves generalizing line with
  | nil => cases h : line.isBare <;> simp [cut, h]
  | cons leaf rest ih =>
      cases leaf with
      | text s =>
          rw [cut, ih, List.filterMap_cons_none rfl]
          rfl
      | hardLine level =>
          rw [cut, List.filter_cons]
          cases line.isBare <;> simp [ih, afterHard, Leaf.level?]
      | bareLine =>
          rw [cut, List.filter_cons, List.filterMap_cons_none rfl]
          cases line.isBare <;> simp [ih, afterBare]

end Line

/-- The lines of a document. -/
def Doc.lines (d : Doc) : List Line := Line.cut .first (d.leaves 0)

/-- The lines of the text of a node. -/
def Node.lines (node : Node) : List Line := node.toDoc.lines

/-- **A text is its lines**, each behind its indentation, with line feeds between. -/
theorem Doc.print_eq_intercalate_lines (i : Indentation) (d : Doc) :
    d.print i = String.intercalate "\n" (d.lines.map (Line.print i)) := by
  rw [print_eq_render, lines, Line.intercalate_cut, render_eq_join_leaves, Line.print, Line.first,
    Indentation.text_zero, String.empty_append, String.empty_append]

end DiagramText
