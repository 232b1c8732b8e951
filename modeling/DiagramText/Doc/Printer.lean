import DiagramText.Doc.Render

/-!
# Printing a document in one pass

The printer keeps a stack of documents that are still to be printed, each with
its level of indentation, and the text printed so far.  It takes the top document
off and either adds to the text or puts the parts of the document back, first
part on top.  Long documents are chains of `cat` nested to the left, so a stack
in the heap is what keeps a large file from exhausting the stack of the machine.

**The pass ends** because each step takes away one constructor: the parts that go
back have fewer constructors between them than the document they came from
(`weight`).  **It prints what the document means** (`print_eq_render`): the stack
at any moment stands for the texts of its documents, from the top down.
-/

namespace DiagramText
namespace Doc

/-- The number of constructors of a document. -/
def weight : Doc → Nat
  | indent d => d.weight + 1
  | cat a b => a.weight + b.weight + 1
  | _ => 1

/-- The number of constructors of all the documents of a stack. -/
def stackWeight : List (Nat × Doc) → Nat
  | [] => 0
  | (_, d) :: rest => d.weight + stackWeight rest

theorem weight_pos (d : Doc) : 0 < d.weight := by
  cases d <;> simp [weight]

/-- Prints the documents of a stack, from the top down, after a text. -/
def printStack (i : Indentation) (stack : List (Nat × Doc)) (done : String) : String :=
  match stack with
  | [] => done
  | (_, nil) :: rest => printStack i rest done
  | (_, text s) :: rest => printStack i rest (done ++ s)
  | (n, hardLine) :: rest => printStack i rest (done ++ "\n" ++ i.text n)
  | (_, bareLine) :: rest => printStack i rest (done ++ "\n")
  | (n, indent d) :: rest => printStack i ((n + 1, d) :: rest) done
  | (n, cat a b) :: rest => printStack i ((n, a) :: (n, b) :: rest) done
termination_by stackWeight stack
decreasing_by all_goals simp only [stackWeight, weight]; omega

/-- The text of a document. -/
def print (i : Indentation) (d : Doc) : String := printStack i [(0, d)] ""

/-- The stack stands for the texts of its documents, from the top down. -/
theorem printStack_eq_render (i : Indentation) (stack : List (Nat × Doc)) (done : String) :
    printStack i stack done =
      done ++ String.join (stack.map fun p => render i p.1 p.2) := by
  fun_induction printStack i stack done <;> simp_all [String.append_assoc]

/-- The printer prints what a document means. -/
theorem print_eq_render (i : Indentation) (d : Doc) : print i d = render i 0 d := by
  simp [print, printStack_eq_render]

end Doc
end DiagramText
