import DiagramText.Proofs.PrintedLines
import DiagramText.Proofs.TreeParts
import Mathlib.Data.List.Chain

/-!
# How deep the lines of a text are

The brackets of a map or an array that spreads over several lines stand at one level,
and what is between them one level deeper.  So the levels of the lines of a text go up
and down by one at a time, and the text ends at the level at which it starts.  For this
it is not enough that indented documents come in brackets: what is indented has to
start with a line break of its own, for otherwise its first break could be that of a
map inside it, two levels deeper than the line before.

* A **walk** is a row of levels in which neighbours differ by at most one
  (`Walk n m levels` goes from `n` to `m`).
* A document **returns** if the levels of its hard lines are a walk from the level at
  which it stands back to that level.  Texts return, and documents that return can be
  put one after the other.
* A document **opens with a break** if its first hard line is not inside an indented
  part of it.  If it also returns, then it may be indented between brackets
  (`Doc.Returns.walk_indented`).

Bare lines do not count, since they open lines that are not indented at all.
-/

namespace DiagramText

/-! ## Walks -/

/-- A row of levels that leads from one level to another by steps of at most one. -/
inductive Walk : Nat → Nat → List Nat → Prop
  | nil (n : Nat) : Walk n n []
  | cons {n k m : Nat} {levels : List Nat} (step : n ≤ k + 1 ∧ k ≤ n + 1)
      (rest : Walk k m levels) : Walk n m (k :: levels)

namespace Walk

variable {n k m : Nat} {as bs : List Nat}

theorem append (h : Walk n k as) (h' : Walk k m bs) : Walk n m (as ++ bs) := by
  induction h with
  | nil n => exact h'
  | cons step _ ih => exact .cons step (ih h')

/-- Staying at a level is a step. -/
theorem stay (n : Nat) : Walk n n [n] := .cons (by omega) (.nil n)

/-- Neighbours on a walk differ by at most one. -/
theorem isChain (h : Walk n m as) : (n :: as).IsChain fun a b => a ≤ b + 1 ∧ b ≤ a + 1 := by
  induction h with
  | nil n => exact .singleton n
  | cons step _ ih => exact .cons_cons step ih

end Walk

/-! ## Documents that return -/

namespace Doc

/-- The levels of the hard lines of a document that stands at a level. -/
def levels (n : Nat) (d : Doc) : List Nat := (d.leaves n).filterMap Leaf.level?

/-- A document whose hard lines lead back to the level at which it stands. -/
def Returns (d : Doc) : Prop := ∀ n, Walk n n (d.levels n)

/-- A document whose first hard line stands at the level of the document. -/
def OpensWithBreak (d : Doc) : Prop := ∀ n, d.levels n = [] ∨ ∃ rest, d.levels n = n :: rest

variable (n : Nat)

@[simp] theorem levels_ofString (s : String) : levels n (ofString s) = [] := by
  rw [levels, leaves_ofString]
  split <;> rfl

@[simp] theorem levels_hardLine : levels n hardLine = [n] := by simp [levels, Leaf.level?]

@[simp] theorem levels_bareLine : levels n bareLine = [] := by simp [levels, Leaf.level?]

@[simp] theorem levels_nest (d : Doc) : levels n d.nest = levels (n + 1) d := by
  rw [levels, leaves_nest, levels]

@[simp] theorem levels_append (a b : Doc) : levels n (a ++ b) = levels n a ++ levels n b := by
  rw [levels, leaves_append, List.filterMap_append, levels, levels]

theorem levels_concat (ds : List Doc) : levels n (concat ds) = ds.flatMap (levels n) := by
  rw [levels, leaves_concat, List.filterMap_flatMap]
  rfl

theorem returns_ofString (s : String) : (ofString s).Returns := by
  intro n
  rw [levels_ofString]
  exact .nil n

theorem returns_hardLine : hardLine.Returns := by
  intro n
  rw [levels_hardLine]
  exact .stay n

theorem returns_bareLine : bareLine.Returns := by
  intro n
  rw [levels_bareLine]
  exact .nil n

theorem additive_returns : Additive Returns where
  nil := returns_ofString ""
  append ha hb n := by
    rw [levels_append]
    exact (ha n).append (hb n)

theorem spacing_returns : Spacing Returns :=
  ⟨returns_ofString " ", returns_ofString "; ", returns_hardLine, returns_bareLine⟩

/-- What is indented between two lines goes one level down and comes back. -/
theorem Returns.walk_indented {d : Doc} (h : d.Returns) (hbreak : d.OpensWithBreak) :
    Walk n n (d.levels (n + 1) ++ [n]) := by
  rcases hbreak (n + 1) with hnone | ⟨rest, hfirst⟩
  · rw [hnone]
    exact .stay n
  · have hwalk := h (n + 1)
    rw [hfirst] at hwalk ⊢
    obtain _ | ⟨-, hrest⟩ := hwalk
    exact .cons (by omega) (hrest.append (.cons (by omega) (.nil n)))

/-! ## The lines of a text, and brackets -/

theorem returns_of_mem_onNewLines {s : String} : ∀ d ∈ onNewLines s, d.Returns := by
  rw [onNewLines, List.forall_mem_flatMap]
  intro line _
  rw [onNewLine]
  split
  · rw [List.forall_mem_singleton]
    exact returns_bareLine
  · rw [List.forall_mem_cons, List.forall_mem_singleton]
    exact ⟨returns_hardLine, returns_ofString line⟩

/-- The hard lines of a text stand at one level. -/
theorem opensWithBreak_onNewLines (s : String) : (concat (onNewLines s)).OpensWithBreak := by
  intro n
  have hall : ∀ k ∈ (concat (onNewLines s)).levels n, k = n := by
    rw [levels_concat, onNewLines, List.flatMap_assoc, List.forall_mem_flatMap]
    intro line _
    rw [onNewLine]
    split <;> simp
  cases hlevels : (concat (onNewLines s)).levels n with
  | nil => exact .inl rfl
  | cons k rest =>
      rw [hlevels, List.forall_mem_cons] at hall
      exact .inr ⟨rest, by rw [hall.1]⟩

end Doc

open Doc

/-- Documents between brackets return, if over several lines they open with a
break. -/
theorem Brackets.returns_enclose (b : Brackets) {oneLine : Bool} {parts : List Doc}
    (hparts : ∀ d ∈ parts, d.Returns)
    (hbreak : oneLine = false → (concat parts).OpensWithBreak) :
    (b.enclose oneLine parts).Returns := by
  have hcontent : (concat parts).Returns := additive_returns.concat hparts
  rw [enclose]
  split
  · exact returns_ofString _
  · cases oneLine with
    | true => exact additive_returns.surround (returns_ofString _) hcontent (returns_ofString _)
    | false =>
        intro n
        rw [if_neg Bool.false_ne_true, surround, levels_append, levels_append, levels_append,
          levels_ofString, levels_ofString, levels_nest, levels_hardLine, List.nil_append,
          List.append_nil]
        exact hcontent.walk_indented n (hbreak rfl)

/-! ## Entries below each other open with a break -/

namespace Placed

/-- The first of some placed items stands on a line of its own. -/
def StartsLine (placed : List Placed) : Prop :=
  ∀ p ∈ placed.head?, p.separator = .newline ∨ p.separator = .blankLine

theorem opensWithBreak_of_startsLine {placed : List Placed} (h : StartsLine placed) :
    (concat (placed.flatMap docs)).OpensWithBreak := by
  intro n
  cases placed with
  | nil => exact .inl rfl
  | cons p rest =>
      right
      rw [List.flatMap_cons, docs, levels_concat]
      rcases h p rfl with hsep | hsep
      · rw [hsep]
        simp [Separator.docs]
      · rw [hsep]
        simp [Separator.docs]

theorem startsLine_stacked (items : List Item) : StartsLine (stacked .newline items) := by
  cases items with
  | nil => simp [StartsLine, stacked]
  | cons first rest => simp [StartsLine, stacked]

theorem startsLine_boards (items : List Item) : StartsLine (boards .blankLine items) := by
  cases items with
  | nil => simp [StartsLine, boards]
  | cons first rest => simp [StartsLine, boards]

theorem StartsLine.append {as bs : List Placed} (ha : StartsLine as) (hb : StartsLine bs) :
    StartsLine (as ++ bs) := by
  cases as with
  | nil => exact hb
  | cons p rest => exact ha

end Placed

theorem ArrayLit.startsLine_arrange (es : List Entry) :
    Placed.StartsLine (arrange false es) :=
  Placed.startsLine_stacked _

/-- Only in a file does an entry follow nothing. -/
theorem MapLit.startsLine_arrange (es : List Entry) :
    Placed.StartsLine (arrange false false es) :=
  (Placed.startsLine_stacked _).append (Placed.startsLine_boards _)

theorem ArrayLit.returns_docOf {span : Span} {es : List Entry} (h : ∀ e ∈ es, e.doc.Returns) :
    (docOf span es).Returns := by
  refine Brackets.returns_enclose _ ?_ ?_
  · exact forall_mem_docs spacing_returns h
  · intro hline
    rw [hline]
    exact Placed.opensWithBreak_of_startsLine (startsLine_arrange es)

theorem MapLit.returns_docOf {span : Span} {isFile : Bool} {es : List Entry}
    (h : ∀ e ∈ es, e.doc.Returns) : (docOf span isFile es).Returns := by
  have hparts : ∀ d ∈ (arrange isFile (isInline span isFile) es).flatMap Placed.docs, d.Returns :=
    forall_mem_docs spacing_returns h
  rw [docOf]
  cases isFile with
  | true =>
      rw [if_pos rfl, fileDoc]
      split
      · exact additive_returns.nil
      · exact additive_returns.append (additive_returns.concat hparts) returns_hardLine
  | false =>
      refine Brackets.returns_enclose _ hparts ?_
      intro hline
      rw [hline]
      exact Placed.opensWithBreak_of_startsLine (startsLine_arrange es)

/-! ## Every tree returns -/

theorem BlockString.returns_toDoc (b : BlockString) : b.toDoc.Returns := by
  have hlines := additive_returns.concat (returns_of_mem_onNewLines (s := b.content))
  refine forall_toDoc_of_texts additive_returns returns_ofString b fun _ n => ?_
  simp only [levels_append, levels_ofString, levels_nest, levels_hardLine, List.nil_append,
    List.append_nil]
  exact hlines.walk_indented n (opensWithBreak_onNewLines b.content)

theorem Comment.returns_toDoc (c : Comment) : c.toDoc.Returns := by
  rw [toDoc]
  cases c.style with
  | line =>
      refine additive_returns.join returns_hardLine ?_
      rw [List.forall_mem_map]
      exact fun line _ => returns_ofString _
  | block =>
      show Returns (if c.isInline then _ else _)
      split
      · exact returns_ofString _
      · refine additive_returns.concat ?_
        rw [List.forall_mem_append, List.forall_mem_append, List.forall_mem_singleton,
          List.forall_mem_cons, List.forall_mem_singleton]
        exact ⟨⟨returns_ofString _, returns_of_mem_onNewLines⟩, returns_hardLine,
          returns_ofString _⟩

/-- Whatever a tree is made of, its document returns. -/
theorem Part.ensures_returns : Part.Ensures (fun _ => True) Doc.Returns :=
  .of_texts additive_returns returns_ofString (fun content _ => content.returns_toDoc)
    (fun content _ => content.returns_toDoc) (fun _ => ArrayLit.returns_docOf)
    (fun _ => MapLit.returns_docOf)

theorem Node.returns_toDoc (node : Node) : node.toDoc.Returns :=
  Part.ensures_returns.node node fun _ _ => trivial

/-! ## The lines of a text -/

/-- The last line of a row of leaves stands at the level to which its hard lines lead,
unless a bare line opens it. -/
theorem Line.exists_getLast?_cut (line : Line) {leaves : List Leaf} {n m : Nat}
    (hline : line.isBare = true ∨ line.level = n)
    (hwalk : Walk n m (leaves.filterMap Leaf.level?)) :
    ∃ l, (cut line leaves).getLast? = some l ∧ (l.isBare = true ∨ l.level = m) := by
  have hbreak : ∀ {line next l : Line} {rest : List Leaf},
      (cut next rest).getLast? = some l → (line :: cut next rest).getLast? = some l := by
    intro line next l rest hl
    rw [List.getLast?_cons, hl, Option.getD_some]
  induction leaves generalizing line n with
  | nil =>
      obtain _ | _ := hwalk
      exact ⟨line, rfl, hline⟩
  | cons leaf rest ih =>
      cases leaf with
      | text s => exact ih (line.write s) hline hwalk
      | hardLine level =>
          obtain _ | ⟨-, hrest⟩ := hwalk
          obtain ⟨l, hl, hlevel⟩ := ih (afterHard level) (.inr rfl) hrest
          exact ⟨l, hbreak hl, hlevel⟩
      | bareLine =>
          obtain ⟨l, hl, hlevel⟩ := ih afterBare (.inl rfl) hwalk
          exact ⟨l, hbreak hl, hlevel⟩

/-- **An indentation changes nothing but the indentation, and the levels go up and down
by one.**  A node has lines that do not depend on the indentation, and its text is
these lines, each behind the indentation of its level.  Lines that a bare line opens
are at level zero; so are the first line and the last; and the levels of two lines
that follow each other differ by at most one, where lines opened by a bare line are
passed over. -/
theorem Node.format_eq_intercalate_lines (node : Node) :
    (∀ i : Indentation,
      node.format i = String.intercalate "\n" (node.lines.map fun l => i.text l.level ++ l.text)) ∧
      (∀ l ∈ node.lines, l.isBare = true → l.level = 0) ∧
      (∃ l, node.lines.head? = some l ∧ l.isBare = false ∧ l.level = 0) ∧
      (∃ l, node.lines.getLast? = some l ∧ l.level = 0) ∧
      (node.lines.filter fun l => !l.isBare).IsChain fun a b =>
        a.level ≤ b.level + 1 ∧ b.level ≤ a.level + 1 := by
  have hwalk : Walk 0 0 ((node.toDoc.leaves 0).filterMap Leaf.level?) := node.returns_toDoc 0
  have hbare : ∀ l ∈ node.lines, l.isBare = true → l.level = 0 :=
    Line.level_eq_zero_of_mem_cut fun _ => rfl
  refine ⟨fun i => node.toDoc.print_eq_intercalate_lines i, hbare, ?_, ?_, ?_⟩
  · obtain ⟨s, more, h⟩ := Line.exists_cut_eq_cons .first (node.toDoc.leaves 0)
    refine ⟨Line.first.write s, ?_, rfl, rfl⟩
    rw [lines, Doc.lines, h, List.head?_cons]
  · obtain ⟨l, hl, hlevel⟩ := Line.exists_getLast?_cut .first (.inr rfl) hwalk
    refine ⟨l, hl, hlevel.elim (fun h => ?_) id⟩
    exact hbare l (List.mem_of_getLast? hl) h
  · rw [← List.isChain_map Line.level (R := fun a b => a ≤ b + 1 ∧ b ≤ a + 1), lines, Doc.lines,
      Line.map_level_filter_cut]
    exact hwalk.isChain

end DiagramText
