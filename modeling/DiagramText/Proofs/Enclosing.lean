import DiagramText.Proofs.PrintedLines
import Mathlib.Data.List.Basic

/-!
# What stands around a row of entries

The layout of a map or an array ends with a step that knows nothing of entries.  It is given
documents, those of the entries and those of the separators between them, and puts brackets
around them, or the line break at the end of a file.  What is said about the order of the
entries and about the separators is said about the documents that this step is given.  That
they come out of it whole is shown here, before anything is said about them.

* `Doc.Encloses`: in front of the parts and behind them stand the same leaves **whatever the
  parts are**, and between these stand the leaves of the parts, each part once and in the
  order in which they are given.  Only where all parts are empty something else may stand,
  such as a pair of brackets without padding.
* `Brackets.exists_encloses` and `MapLit.exists_encloses`: brackets enclose their parts, and so
  does the frame of a map.  What stands behind the parts starts with a line break unless the
  row stands on one line.
* `Doc.Holds`: the leaves of some parts stand in a document, inside of what encloses them.
-/

namespace DiagramText

/-! ## Line breaks -/

/-- Whether a leaf is a line break. -/
def Leaf.isBreak : Leaf → Bool
  | text _ => false
  | _ => true

/-- Whether nothing more is printed on the line that goes on with these leaves. -/
def Leaf.EndLine (leaves : List Leaf) : Prop := ∀ leaf ∈ leaves.head?, leaf.isBreak = true

namespace Leaf

theorem endLine_cons (leaf : Leaf) (rest : List Leaf) :
    EndLine (leaf :: rest) ↔ leaf.isBreak = true := by
  simp [EndLine]

/-- Only the leaves in front decide, if there are any. -/
theorem endLine_append {leaves : List Leaf} (h : leaves ≠ []) (rest : List Leaf) :
    EndLine (leaves ++ rest) ↔ EndLine leaves := by
  rw [EndLine, EndLine, List.head?_append_of_ne_nil _ h]

end Leaf

/-! ## Leaves around parts -/

namespace Doc

/-- A document that puts leaves around its parts, unless all of them are empty. -/
def Encloses (n level : Nat) (front back : List Leaf) (around : List Doc → Doc) : Prop :=
  ∀ parts, allNil parts = false →
    (around parts).leaves n = front ++ parts.flatMap (leaves level) ++ back

/-- A document holds some parts inside of a frame: at every level the frame encloses whatever
it is put around, and the leaves of these parts stand in the document one after the other. -/
def Holds (d : Doc) (frame : List Doc → Doc) (parts : List Doc) : Prop :=
  ∀ n, ∃ level front back, Encloses n level front back frame ∧
    parts.flatMap (leaves level) <:+: d.leaves n

variable {n level : Nat} {front back : List Leaf} {around : List Doc → Doc}

/-- The leaves of enclosed parts stand in the document, even if there are none. -/
theorem Encloses.infix_leaves (h : Encloses n level front back around) (parts : List Doc) :
    parts.flatMap (leaves level) <:+: (around parts).leaves n := by
  cases hparts : allNil parts with
  | true =>
      have hleaves : parts.flatMap (leaves level) = [] := by
        rw [List.flatMap_eq_nil_iff]
        intro d hd
        rw [(allNil_iff parts).mp hparts d hd, leaves_nil]
      rw [hleaves]
      exact List.nil_infix
  | false =>
      rw [h parts hparts]
      exact List.infix_append front _ back

end Doc

/-- Brackets on one line are closed on that line, and brackets over several lines on a line of
their own. -/
theorem Brackets.exists_encloses (b : Brackets) (hclosing : b.closing ≠ "") (oneLine : Bool)
    (n : Nat) :
    ∃ level front back, Doc.Encloses n level front back (b.enclose oneLine) ∧
      (Leaf.EndLine back ↔ oneLine = false) := by
  have hends : b.padding ++ b.closing ≠ "" := by
    intro h
    exact hclosing (String.append_eq_empty_iff.mp h).2
  cases oneLine with
  | true =>
      refine ⟨n, Doc.leaves n (.ofString (b.opening ++ b.padding)),
        [.text (b.padding ++ b.closing)], ?_, ?_⟩
      · intro parts hparts
        rw [enclose, hparts, if_neg Bool.false_ne_true, if_pos rfl, Doc.surround,
          Doc.leaves_append, Doc.leaves_append, Doc.leaves_concat,
          Doc.leaves_ofString n (b.padding ++ b.closing), if_neg hends]
      · rw [Leaf.endLine_cons]
        exact iff_of_false Bool.false_ne_true Bool.false_ne_true.symm
  | false =>
      refine ⟨n + 1, Doc.leaves n (.ofString b.opening), [.hardLine n, .text b.closing], ?_, ?_⟩
      · intro parts hparts
        rw [enclose, hparts, if_neg Bool.false_ne_true, if_neg Bool.false_ne_true, Doc.surround,
          Doc.leaves_append, Doc.leaves_append, Doc.leaves_nest, Doc.leaves_concat,
          Doc.leaves_append, Doc.leaves_hardLine, Doc.leaves_ofString n b.closing, if_neg hclosing]
        rfl
      · rw [Leaf.endLine_cons]
        exact iff_of_true rfl rfl

/-- What is put between brackets stands in the document. -/
theorem Brackets.holds_enclose (b : Brackets) (hclosing : b.closing ≠ "") (oneLine : Bool)
    (parts : List Doc) : (b.enclose oneLine parts).Holds (b.enclose oneLine) parts := by
  intro n
  obtain ⟨level, front, back, hencloses, -⟩ := b.exists_encloses hclosing oneLine n
  exact ⟨level, front, back, hencloses, hencloses.infix_leaves parts⟩

namespace MapLit

/-- What a map puts around the documents of its entries and their separators. -/
def frame (m : MapLit) (parts : List Doc) : Doc :=
  if m.isFile then fileDoc parts
  else Brackets.braces.enclose (isInline m.span m.isFile) parts

/-- A file ends with a line break. -/
theorem exists_encloses (m : MapLit) (n : Nat) :
    ∃ level front back, Doc.Encloses n level front back m.frame ∧
      (Leaf.EndLine back ↔ isInline m.span m.isFile = false) := by
  cases hfile : m.isFile with
  | false =>
      have hframe : m.frame = Brackets.braces.enclose (isInline m.span false) := by
        funext parts
        rw [frame, hfile, if_neg Bool.false_ne_true]
      rw [hframe]
      exact Brackets.braces.exists_encloses (by decide) _ n
  | true =>
      refine ⟨n, [], [.hardLine n], ?_, ?_⟩
      · intro parts hparts
        rw [frame, hfile, if_pos rfl, fileDoc, hparts, if_neg Bool.false_ne_true,
          Doc.leaves_append, Doc.leaves_concat, Doc.leaves_hardLine, List.nil_append]
      · rw [Leaf.endLine_cons]
        exact iff_of_true rfl rfl

/-- What is put into the frame of a map stands in the document. -/
theorem holds_frame (m : MapLit) (parts : List Doc) : (m.frame parts).Holds m.frame parts := by
  intro n
  obtain ⟨level, front, back, hencloses, -⟩ := m.exists_encloses n
  exact ⟨level, front, back, hencloses, hencloses.infix_leaves parts⟩

end MapLit
end DiagramText
