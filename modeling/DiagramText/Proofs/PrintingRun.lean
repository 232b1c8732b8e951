import DiagramText.Doc.Printer

/-!
# The turns of the printer

`Doc.printStack` is a loop, written as a function that calls itself.  What it returns is the
subject of `Doc.Printer`; this file looks at the loop itself, turn by turn.

* A **printing** is what the printer has in hand between two turns: the stack of documents that
  are still to be printed, and the text so far.
* A **turn** takes the top document off the stack.  There is no turn when the stack is empty,
  and there is one in every other case (`Printing.turn_eq_none_iff`).
* A **run** is a row of turns, and counts them.  Nothing in its definition bounds their number.

## Why the loop ends

A document that is put together of two others is replaced by both, so a turn can make the stack
higher, and it can leave the text as it is.  What every turn does is to take one constructor
away (`Printing.stackWeight_of_turn`).  The number of turns is therefore known in advance: it is
the number of constructors of the document, those that print nothing included.

**A run never changes what will be printed** (`Printing.Run.printStack_eq`).  At any moment the
text so far, followed by the texts of the documents on the stack from the top down, is the text
of the document.
-/

namespace DiagramText
namespace Doc

/-- What the printer has in hand between two turns. -/
structure Printing where
  /-- The documents that are still to be printed, each with its level. -/
  stack : List (Nat × Doc)
  /-- The text so far. -/
  done : String

namespace Printing

/-- The printer in front of a document. -/
def start (d : Doc) : Printing := ⟨[(0, d)], ""⟩

/-- One turn of the printer, if there is something left to print. -/
def turn (i : Indentation) : Printing → Option Printing
  | ⟨[], _⟩ => none
  | ⟨(_, .nil) :: rest, done⟩ => some ⟨rest, done⟩
  | ⟨(_, .text s) :: rest, done⟩ => some ⟨rest, done ++ s⟩
  | ⟨(n, .hardLine) :: rest, done⟩ => some ⟨rest, done ++ "\n" ++ i.text n⟩
  | ⟨(_, .bareLine) :: rest, done⟩ => some ⟨rest, done ++ "\n"⟩
  | ⟨(n, .indent d) :: rest, done⟩ => some ⟨(n + 1, d) :: rest, done⟩
  | ⟨(n, .cat a b) :: rest, done⟩ => some ⟨(n, a) :: (n, b) :: rest, done⟩

/-- `Run i n s t`: from `s` the printer comes to `t` in `n` turns. -/
inductive Run (i : Indentation) : Nat → Printing → Printing → Prop
  | stay (s : Printing) : Run i 0 s s
  | turn {n : Nat} {s t u : Printing} (first : s.turn i = some t) (rest : Run i n t u) :
      Run i (n + 1) s u

variable {i : Indentation} {n : Nat} {s t : Printing}

/-! ## One turn -/

/-- The printer stops when the stack is empty, and not before. -/
theorem turn_eq_none_iff : s.turn i = none ↔ s.stack = [] := by
  obtain ⟨_ | ⟨⟨level, d⟩, rest⟩, done⟩ := s
  · exact iff_of_true rfl rfl
  · cases d <;> exact iff_of_false (Option.some_ne_none _) (List.cons_ne_nil _ _)

/-- A turn takes one constructor off the stack. -/
theorem stackWeight_of_turn (h : s.turn i = some t) :
    stackWeight t.stack + 1 = stackWeight s.stack := by
  obtain ⟨_ | ⟨⟨level, d⟩, rest⟩, done⟩ := s
  · exact absurd h (by simp [turn])
  · cases d with
    | _ =>
        obtain rfl := Option.some.inj h
        simp only [stackWeight, weight]
        omega

/-- A turn leaves unchanged what the loop will return. -/
theorem printStack_of_turn (h : s.turn i = some t) :
    printStack i s.stack s.done = printStack i t.stack t.done := by
  obtain ⟨_ | ⟨⟨level, d⟩, rest⟩, done⟩ := s
  · exact absurd h (by simp [turn])
  · cases d <;> (obtain rfl := Option.some.inj h; rw [printStack])

/-! ## Runs -/

namespace Run

/-- Every turn of a run has taken one constructor off the stack. -/
theorem add_stackWeight_eq (h : Run i n s t) : n + stackWeight t.stack = stackWeight s.stack := by
  induction h with
  | stay s => rw [Nat.zero_add]
  | turn first rest ih =>
      have hturn := stackWeight_of_turn first
      omega

/-- A run leaves unchanged what the loop will return. -/
theorem printStack_eq (h : Run i n s t) :
    printStack i s.stack s.done = printStack i t.stack t.done := by
  induction h with
  | stay s => rfl
  | turn first rest ih => rw [printStack_of_turn first, ih]

end Run

theorem stackWeight_eq_zero_iff (stack : List (Nat × Doc)) : stackWeight stack = 0 ↔ stack = [] := by
  cases stack with
  | nil => exact iff_of_true rfl rfl
  | cons top rest =>
      have hpos := top.2.weight_pos
      refine iff_of_false ?_ (List.cons_ne_nil _ _)
      simp only [stackWeight]
      omega

/-- From any printing the loop comes to an end, with the text that it returns, after as many
turns as there are constructors on the stack. -/
theorem run_printStack (i : Indentation) (s : Printing) :
    Run i (stackWeight s.stack) s ⟨[], printStack i s.stack s.done⟩ := by
  generalize hweight : stackWeight s.stack = n
  induction n generalizing s with
  | zero =>
      obtain ⟨stack, done⟩ := s
      obtain rfl := (stackWeight_eq_zero_iff stack).mp hweight
      rw [printStack]
      exact .stay _
  | succ n ih =>
      cases hturn : s.turn i with
      | none =>
          rw [turn_eq_none_iff.mp hturn] at hweight
          exact absurd hweight (by simp [stackWeight])
      | some next =>
          have hnext := stackWeight_of_turn hturn
          rw [printStack_of_turn hturn]
          exact .turn hturn (ih next (by omega))

end Printing

open Printing in
/-- **The printer ends and prints what the document means.**  From any document, also one with
empty parts anywhere in it, the run of the printer ends with an empty stack after exactly as many
turns as the document has constructors, and the text that it ends with is the rendering of the
document at level zero.  No run of the printer is longer, none stops earlier, and at every moment
of a run the text so far and the renderings of the documents on the stack make up that text. -/
theorem run_print (i : Indentation) (d : Doc) :
    Run i d.weight (.start d) ⟨[], d.print i⟩ ∧ d.print i = d.render i 0 ∧
      ∀ n s, Run i n (.start d) s →
        n ≤ d.weight ∧ (s.turn i = none ↔ n = d.weight) ∧
          s.done ++ String.join (s.stack.map fun p => render i p.1 p.2) = d.render i 0 := by
  have hstart : stackWeight (Printing.start d).stack = d.weight := Nat.add_zero _
  refine ⟨?_, print_eq_render i d, ?_⟩
  · have hrun := run_printStack i (.start d)
    rwa [hstart] at hrun
  · intro n s hrun
    have hcount := hrun.add_stackWeight_eq
    have hprint := hrun.printStack_eq
    rw [hstart] at hcount
    refine ⟨by omega, ?_, ?_⟩
    · rw [turn_eq_none_iff, ← stackWeight_eq_zero_iff]
      omega
    · rw [← printStack_eq_render, ← hprint, ← print_eq_render]
      rfl

end Doc
end DiagramText
