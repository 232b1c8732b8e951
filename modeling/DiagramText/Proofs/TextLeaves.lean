import DiagramText.Proofs.Assembly
import DiagramText.Proofs.CommentLines

/-!
# Line feeds inside the texts of a document

A text is printed as it is, so a line feed in a text breaks the line where nobody expects it: no
indentation follows, and what follows is no longer in the column that the document says.  The
texts of a document are therefore meant to hold none, and all line feeds of the output are to
come from the line breaks of the document.

The type of documents does not ask for this.  It holds for the document of a tree because every
text on the way into it is escaped or cut at its line feeds, except the texts that are printed as
they are (`Node.verbatim`).  If those hold no line feed, then no text of the document does, and
the line feeds of the output are the line breaks of the document, whatever the indentation
(`Node.count_newline_format`).
-/

namespace DiagramText

namespace Doc

variable {p : Char → Prop} {d : Doc}

/-- The texts of an assembled document are those that it was assembled from. -/
theorem Assembled.forall_mem_text (h : d.Assembled p) {n : Nat} {s : String}
    (hs : .text s ∈ d.leaves n) : ∀ c ∈ s.toList, p c := by
  induction h generalizing n with
  | @ofString t ht =>
      rw [leaves_ofString] at hs
      split at hs
      · exact absurd hs List.not_mem_nil
      · obtain rfl := Leaf.text.inj (List.mem_singleton.mp hs)
        exact ht
  | hardLine => simp at hs
  | bareLine => simp at hs
  | append ha hb iha ihb =>
      rw [leaves_append, List.mem_append] at hs
      exact hs.elim iha ihb
  | nest h ih =>
      rw [leaves_nest] at hs
      exact ih hs

end Doc

namespace Leaf

/-- A line break prints one line feed, with or without an indentation behind it. -/
theorem count_newline_print (i : Indentation) {leaf : Leaf}
    (h : ∀ s, leaf = text s → '\n' ∉ s.toList) :
    (leaf.print i).toList.count '\n' = if leaf.isBreak then 1 else 0 := by
  cases leaf with
  | text s => exact List.count_eq_zero.mpr (h s rfl)
  | hardLine level =>
      have hindent := List.count_eq_zero.mpr (i.newline_notMem_chars level)
      rw [toList_print_hardLine, List.count_cons_self, hindent]
      rfl
  | bareLine =>
      rw [toList_print_bareLine]
      rfl

end Leaf

/-- If no text of a document holds a line feed, then the line feeds that it prints are its line
breaks. -/
theorem Doc.count_newline_print (i : Indentation) {d : Doc}
    (h : ∀ s, .text s ∈ d.leaves 0 → '\n' ∉ s.toList) :
    (d.print i).toList.count '\n' = (d.leaves 0).countP Leaf.isBreak := by
  rw [toList_print_eq_flatMap_leaves]
  generalize d.leaves 0 = leaves at h ⊢
  induction leaves with
  | nil => rfl
  | cons leaf rest ih =>
      have hleaf := leaf.count_newline_print i fun s hs => h s (hs ▸ List.mem_cons_self)
      have hrest := ih fun s hs => h s (List.mem_cons_of_mem _ hs)
      rw [List.flatMap_cons, List.count_append, hleaf, hrest, List.countP_cons, Nat.add_comm]

/-- **Line feeds are line breaks.**  If the texts of a tree that are printed as they are hold no
line feed, then no text of its document does, whatever its strings and comments say.  So the line
feeds of its text are the line breaks of its document, for every indentation. -/
theorem Node.count_newline_format (node : Node) (h : ∀ s ∈ node.verbatim, '\n' ∉ s.toList) :
    (∀ s, .text s ∈ node.toDoc.leaves 0 → '\n' ∉ s.toList) ∧
      ∀ i, (node.format i).toList.count '\n' = (node.toDoc.leaves 0).countP Leaf.isBreak := by
  have hassembled : node.toDoc.Assembled (· ≠ '\n') :=
    node.assembled_toDoc (fun _ hc => hc) fun s hs c hc hnewline => h s hs (hnewline ▸ hc)
  have htexts : ∀ s, .text s ∈ node.toDoc.leaves 0 → '\n' ∉ s.toList :=
    fun s hs hnewline => hassembled.forall_mem_text hs _ hnewline rfl
  exact ⟨htexts, fun i => Doc.count_newline_print i htexts⟩

/-- A file with line feeds in strings of each form and in comments of both styles, and with a
number, an import, an edge and a block in it. -/
def Node.brokenTexts : Node :=
  .value (.map (.file [
    .comment ⟨.block, "a\n\nb", .unset⟩,
    .comment ⟨.line, "a\nb", .ofLine 8⟩,
    .comment ⟨.block, "one line", .ofLine 9⟩,
    .key { Key.ofPath ⟨[.bare "x\ny", .doubleQuoted [.text "x\ny"] .unset,
        .singleQuoted "x\ny" .unset], .unset⟩ with
      value := some (.array ⟨[
        .value (.scalar (.number "1e3" .unset)),
        .value (.scalar (.string (.block ⟨"first\n\nlast", "md", "`", .unset⟩))),
        .value (.imported ⟨true, "../", .ofTexts ["f\ng"], .unset⟩)], .ofLines 10 12⟩)
      span := .ofLines 10 12 },
    .key (.ofEdges [⟨some (.ofTexts ["a"]), "<", some (.ofTexts ["b\n"]), ">", .unset⟩])]))

/-- The condition holds of a file whose strings and comments are full of line feeds. -/
theorem Node.count_newline_format_brokenTexts :
    Part.string (.bare "x\ny") ∈ brokenTexts.parts ∧
      (∀ s ∈ brokenTexts.verbatim, '\n' ∉ s.toList) ∧
      (∀ s, .text s ∈ brokenTexts.toDoc.leaves 0 → '\n' ∉ s.toList) ∧
      ∀ i, (brokenTexts.format i).toList.count '\n' =
        (brokenTexts.toDoc.leaves 0).countP Leaf.isBreak := by
  have hmem : Part.string (.bare "x\ny") ∈ brokenTexts.parts := List.mem_of_getElem? (i := 4) rfl
  have hverbatim : ∀ s ∈ brokenTexts.verbatim, '\n' ∉ s.toList := by decide +kernel
  exact ⟨hmem, hverbatim, count_newline_format brokenTexts hverbatim⟩

end DiagramText
