import DiagramText.Format
import DiagramText.Proofs.Assembly

/-!
# Documents without idle parts

Whether something has been printed decides about brackets and separators, and the layout finds it
out by comparing a document with the empty one.  That is the right question only if a document
that prints nothing *is* the empty one.  In general it need not be: an empty text, an indented
empty document and two of them side by side print nothing either.

Such parts are **idle**, and a document is **normal** if it is the empty one or has no idle part
at any depth.  The operations keep documents normal, because each of them drops the parts that
are the empty document; and the documents of trees are assembled by the operations
(`Node.assembled_toDoc`).  No tree is an exception, also not one with an empty number, a path
without segments or a string without pieces.

**A normal document prints nothing only if it is the empty one** (`Doc.IsNormal.print_eq_empty_iff`).
Each of its leaves prints a character, whatever the indentation is, and there is a leaf in every
document that is not idle.
-/

namespace DiagramText

namespace Doc

/-- The documents that a document is made of: the document, and the parts of its parts. -/
def parts : Doc → List Doc
  | indent d => indent d :: d.parts
  | cat a b => cat a b :: (a.parts ++ b.parts)
  | d => [d]

/-- A document without an idle part: neither the empty document nor an empty text occurs in it,
and nothing empty is indented. -/
structure IsTight (d : Doc) : Prop where
  nil_notMem : nil ∉ d.parts
  empty_notMem : text "" ∉ d.parts
  indent_notMem : indent nil ∉ d.parts

/-- The empty document, or one without an idle part. -/
def IsNormal (d : Doc) : Prop := d = nil ∨ d.IsTight

theorem mem_parts_self (d : Doc) : d ∈ d.parts := by
  cases d <;> simp [parts]

theorem IsTight.ne_nil {d : Doc} (h : d.IsTight) : d ≠ nil := by
  rintro rfl
  exact h.nil_notMem (mem_parts_self nil)

theorem isTight_text {s : String} (h : s ≠ "") : (text s).IsTight := by
  constructor <;> simp [parts, Ne.symm h]

theorem isTight_hardLine : hardLine.IsTight := by
  constructor <;> simp [parts]

theorem isTight_bareLine : bareLine.IsTight := by
  constructor <;> simp [parts]

theorem isTight_indent_iff (d : Doc) : (indent d).IsTight ↔ d.IsTight := by
  constructor
  · rintro ⟨hnil, hempty, hindent⟩
    rw [parts, List.mem_cons, not_or] at hnil hempty hindent
    exact ⟨hnil.2, hempty.2, hindent.2⟩
  · intro h
    have hne := h.ne_nil
    obtain ⟨hnil, hempty, hindent⟩ := h
    constructor
    · simp [parts, hnil]
    · simp [parts, hempty]
    · simp [parts, hindent, Ne.symm hne]

theorem isTight_cat_iff (a b : Doc) : (cat a b).IsTight ↔ a.IsTight ∧ b.IsTight := by
  constructor
  · rintro ⟨hnil, hempty, hindent⟩
    simp only [parts, List.mem_cons, List.mem_append, not_or] at hnil hempty hindent
    exact ⟨⟨hnil.2.1, hempty.2.1, hindent.2.1⟩, ⟨hnil.2.2, hempty.2.2, hindent.2.2⟩⟩
  · rintro ⟨⟨hnil, hempty, hindent⟩, ⟨hnil', hempty', hindent'⟩⟩
    constructor <;> simp [parts, *]

/-! ## The operations keep documents normal -/

theorem isNormal_ofString (s : String) : (ofString s).IsNormal := by
  by_cases h : s = ""
  · rw [h]
    exact .inl rfl
  · rw [ofString_of_ne h]
    exact .inr (isTight_text h)

theorem IsNormal.append {a b : Doc} (ha : a.IsNormal) (hb : b.IsNormal) : (a ++ b).IsNormal := by
  rcases ha with rfl | ha
  · rwa [nil_append]
  · rcases hb with rfl | hb
    · rw [append_nil]
      exact .inr ha
    · rw [append_of_ne ha.ne_nil hb.ne_nil]
      exact .inr ((isTight_cat_iff a b).mpr ⟨ha, hb⟩)

theorem IsNormal.nest {d : Doc} (h : d.IsNormal) : d.nest.IsNormal := by
  rcases h with rfl | h
  · exact .inl rfl
  · rw [nest_of_ne h.ne_nil]
    exact .inr ((isTight_indent_iff d).mpr h)

/-- What the operations put together is normal, whatever the texts are. -/
theorem Assembled.isNormal {p : Char → Prop} {d : Doc} (h : d.Assembled p) : d.IsNormal := by
  induction h with
  | ofString => exact isNormal_ofString _
  | hardLine => exact .inr isTight_hardLine
  | bareLine => exact .inr isTight_bareLine
  | append ha hb iha ihb => exact iha.append ihb
  | nest h ih => exact ih.nest

/-! ## What a normal document prints -/

/-- A document without an idle part prints something at every level. -/
theorem IsTight.render_ne_empty (i : Indentation) {d : Doc} (h : d.IsTight) (n : Nat) :
    render i n d ≠ "" := by
  induction d generalizing n with
  | nil => exact absurd rfl h.ne_nil
  | text s =>
      rw [render_text]
      rintro rfl
      exact h.empty_notMem (mem_parts_self _)
  | hardLine =>
      rw [render_hardLine]
      exact fun hempty => absurd (String.append_eq_empty_iff.mp hempty).1 (by decide)
  | bareLine =>
      rw [render_bareLine]
      decide
  | indent d ih =>
      rw [render_indent]
      exact ih ((isTight_indent_iff d).mp h) (n + 1)
  | cat a b iha =>
      rw [render_cat]
      exact fun hempty =>
        iha ((isTight_cat_iff a b).mp h).1 n (String.append_eq_empty_iff.mp hempty).1

/-- A normal document prints nothing only if it is the empty one. -/
theorem IsNormal.print_eq_empty_iff {d : Doc} (h : d.IsNormal) (i : Indentation) :
    d.print i = "" ↔ d = nil := by
  rw [print_eq_render]
  constructor
  · intro hempty
    exact h.resolve_right fun htight => htight.render_ne_empty i 0 hempty
  · rintro rfl
    exact render_nil i 0

end Doc

/-- The document of every tree is normal. -/
theorem Node.isNormal_toDoc (node : Node) : node.toDoc.IsNormal :=
  (node.assembled_toDoc (p := fun _ => True) (fun _ _ => trivial) fun _ _ _ _ => trivial).isNormal

/-- **The document of a tree is in normal form.**  It is the empty document, or neither the empty
document nor an empty text nor an indented empty document occurs in it at any depth.  So the text
of a tree is empty under some indentation exactly if it is empty under all of them, and exactly if
the document of the tree is the empty one. -/
theorem Node.toDoc_normal_and_format_eq_empty_iff (node : Node) :
    (node.toDoc = .nil ∨
      ∀ part ∈ node.toDoc.parts, part ≠ .nil ∧ part ≠ .text "" ∧ part ≠ .indent .nil) ∧
    ((∃ i, node.format i = "") ↔ ∀ i, node.format i = "") ∧
    ((∀ i, node.format i = "") ↔ node.toDoc = .nil) := by
  have hnormal := node.isNormal_toDoc
  have hprint : ∀ i, node.format i = "" ↔ node.toDoc = .nil := hnormal.print_eq_empty_iff
  refine ⟨hnormal.imp_right fun htight part hpart => ?_, ?_, ?_⟩
  · refine ⟨?_, ?_, ?_⟩
    · rintro rfl
      exact htight.nil_notMem hpart
    · rintro rfl
      exact htight.empty_notMem hpart
    · rintro rfl
      exact htight.indent_notMem hpart
  · exact ⟨fun ⟨i, hi⟩ j => (hprint j).mpr ((hprint i).mp hi), fun hall => ⟨{}, hall {}⟩⟩
  · exact ⟨fun hall => (hprint {}).mp (hall {}), fun hnil i => (hprint i).mpr hnil⟩

/-- A number without digits and a path without segments print nothing. -/
example : (Node.value (.scalar (.number "" .unset))).toDoc = .nil ∧
    (Node.keyPath ⟨[], .unset⟩).toDoc = .nil := by
  decide

end DiagramText
