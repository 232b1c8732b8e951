import DiagramText.Layout.Node
import Mathlib.Data.List.Forall2

/-!
# Entries that are laid out alike

Two trees can have the same document although they are different.  For maps and
arrays this file says when: the layout of a row of entries looks at the documents of
the entries, at their roles in the placement of boards, at which of them are
comments, and at the lines on which they start and end.  Of the lines only the
distances matter.

Two entries are **alike** up to `shift` if they agree in all of this, the lines of
the second being those of the first moved down by `shift`.  If the entries of two
rows are alike one by one, then

* grouping makes items of them that are alike one by one (`forall₂_group`): an item
  is known by its documents, its role and the blank line in front of it;
* selecting items by their role and sorting them by kind selects and sorts alike
  items;
* the placed items have the same documents, because a separator depends on the blank
  lines of the source and on whether a row is empty.

So the documents of the two maps are the same (`MapLit.docOf_congr`), and those of
the two arrays (`ArrayLit.docOf_congr`).
-/

namespace DiagramText

/-! ## Entries and items -/

/-- The second entry is laid out as the first, with its lines moved down by
`shift`.  `role` says which entries are groups of boards. -/
structure Entry.Alike (role : Node → Role) (shift : Nat) (e e' : Entry) : Prop where
  doc : e'.doc = e.doc
  role : role e'.node = role e.node
  isComment : e'.node.isComment = e.node.isComment
  firstLine : e'.node.firstLine = e.node.firstLine + shift
  lastLine : e'.node.lastLine = e.node.lastLine + shift

/-- The second item is laid out as the first. -/
structure Item.Alike (role : Node → Role) (item item' : Item) : Prop where
  docs : item'.docs = item.docs
  role : role item'.entry.node = role item.entry.node
  afterGap : item'.afterGap = item.afterGap

namespace Entry.Alike

variable {role : Node → Role} {shift : Nat} {e e' next next' : Entry}

/-- A blank line is a distance between lines, and moving both leaves it. -/
theorem isAfterGap_eq (h : e.Alike role shift e') (last : Option Nat) :
    Item.isAfterGap (last.map (· + shift)) e' = Item.isAfterGap last e := by
  cases last with
  | none => rfl
  | some line =>
      rw [Option.map_some, Item.isAfterGap, Item.isAfterGap, h.firstLine,
        Nat.add_sub_add_right]

/-- Whether a comment stays on the line of an entry is the same for both. -/
theorem attaches_eq (h : e.Alike role shift e') (hnext : next.Alike role shift next') :
    Item.attaches role e' next' = Item.attaches role e next := by
  have hline : (next'.node.firstLine == e'.node.lastLine) =
      (next.node.firstLine == e.node.lastLine) := by
    rw [hnext.firstLine, h.lastLine, Bool.eq_iff_iff, beq_iff_eq, beq_iff_eq]
    omega
  rw [Item.attaches, Item.attaches, hnext.isComment, hline, h.role]

/-- An entry without a comment is an item that is laid out as the other. -/
theorem item (h : e.Alike role shift e') (last : Option Nat) :
    Item.Alike role ⟨e, none, Item.isAfterGap last e⟩
      ⟨e', none, Item.isAfterGap (last.map (· + shift)) e'⟩ where
  docs := by
    show [e'.doc] = [e.doc]
    rw [h.doc]
  role := h.role
  afterGap := h.isAfterGap_eq last

/-- An entry with a comment is an item that is laid out as the other. -/
theorem itemWith (h : e.Alike role shift e') (hnext : next.Alike role shift next')
    (last : Option Nat) :
    Item.Alike role ⟨e, some next, Item.isAfterGap last e⟩
      ⟨e', some next', Item.isAfterGap (last.map (· + shift)) e'⟩ where
  docs := by
    show [e'.doc, .ofString " ", next'.doc] = [e.doc, .ofString " ", next.doc]
    rw [h.doc, hnext.doc]
  role := h.role
  afterGap := h.isAfterGap_eq last

end Entry.Alike

namespace Item

/-- Grouping entries that are alike makes items that are alike. -/
theorem forall₂_group {role : Node → Role} {shift : Nat} (keep : Bool) (last : Option Nat)
    {es es' : List Entry} (h : List.Forall₂ (Entry.Alike role shift) es es') :
    List.Forall₂ (Item.Alike role) (group role keep last es)
      (group role keep (last.map (· + shift)) es') := by
  fun_induction group role keep last es generalizing es' with
  | case1 last =>
      rw [List.forall₂_nil_left_iff] at h
      rw [h, group_nil]
      exact .nil
  | case2 last e =>
      obtain ⟨e', rest', he, hrest, rfl⟩ := List.forall₂_cons_left_iff.mp h
      rw [List.forall₂_nil_left_iff] at hrest
      rw [hrest, group]
      exact .cons (he.item last) .nil
  | case3 last e next rest hattach ih =>
      obtain ⟨e', tail', he, htail, rfl⟩ := List.forall₂_cons_left_iff.mp h
      obtain ⟨next', rest', hnext, hrest, rfl⟩ := List.forall₂_cons_left_iff.mp htail
      rw [group, he.attaches_eq hnext, if_pos hattach, hnext.lastLine]
      exact .cons (he.itemWith hnext last) (ih hrest)
  | case4 last e next rest hattach ih =>
      obtain ⟨e', tail', he, htail, rfl⟩ := List.forall₂_cons_left_iff.mp h
      obtain ⟨next', rest', hnext, hrest, rfl⟩ := List.forall₂_cons_left_iff.mp htail
      rw [group, he.attaches_eq hnext, if_neg hattach, he.lastLine]
      exact .cons (he.item last) (ih htail)

end Item

/-! ## Placed items -/

namespace Placed

variable {role : Node → Role} {items items' : List Item}

/-- Items that are alike have the same documents behind separators that are the
same for alike items. -/
theorem flatMap_docs_map (h : List.Forall₂ (Item.Alike role) items items')
    (separator : Item → Separator)
    (hsep : ∀ item item', Item.Alike role item item' → separator item' = separator item) :
    (items'.map fun item => (⟨separator item, item⟩ : Placed)).flatMap docs =
      (items.map fun item => (⟨separator item, item⟩ : Placed)).flatMap docs := by
  induction h with
  | nil => rfl
  | cons hitem _ ih =>
      rw [List.map_cons, List.map_cons, List.flatMap_cons, List.flatMap_cons, ih, docs, docs,
        hsep _ _ hitem, hitem.docs]

theorem flatMap_docs_inline (h : List.Forall₂ (Item.Alike role) items items') :
    (inline items').flatMap docs = (inline items).flatMap docs := by
  cases h with
  | nil => rfl
  | cons hitem hrest =>
      rw [inline, inline, List.flatMap_cons, List.flatMap_cons, docs, docs, hitem.docs,
        flatMap_docs_map hrest (fun _ => .semicolon) fun _ _ _ => rfl]

theorem flatMap_docs_stacked (opening : Separator)
    (h : List.Forall₂ (Item.Alike role) items items') :
    (stacked opening items').flatMap docs = (stacked opening items).flatMap docs := by
  cases h with
  | nil => rfl
  | cons hitem hrest =>
      rw [stacked, stacked, List.flatMap_cons, List.flatMap_cons, docs, docs, hitem.docs,
        flatMap_docs_map hrest (fun item => if item.afterGap then .blankLine else .newline)
          fun _ _ hitem => by rw [hitem.afterGap]]

theorem flatMap_docs_boards (opening : Separator)
    (h : List.Forall₂ (Item.Alike role) items items') :
    (boards opening items').flatMap docs = (boards opening items).flatMap docs := by
  cases h with
  | nil => rfl
  | cons hitem hrest =>
      rw [boards, boards, List.flatMap_cons, List.flatMap_cons, docs, docs, hitem.docs,
        flatMap_docs_map hrest (fun _ => .blankLine) fun _ _ _ => rfl]

end Placed

/-! ## Arrays and maps -/

/-- Arrays of entries that are alike have the same document, if both stand on one
line or neither does. -/
theorem ArrayLit.docOf_congr {shift : Nat} {span span' : Span} {es es' : List Entry}
    (hspan : span'.isOneLine = span.isOneLine)
    (h : List.Forall₂ (Entry.Alike (fun _ => .ordinary) shift) es es') :
    docOf span' es' = docOf span es := by
  have hitems := Item.forall₂_group (!span.isOneLine) none h
  rw [Option.map_none] at hitems
  rw [docOf, docOf, hspan, arrange, arrange]
  congr 1
  cases hline : span.isOneLine with
  | true =>
      rw [hline] at hitems
      exact Placed.flatMap_docs_inline hitems
  | false =>
      rw [hline] at hitems
      exact Placed.flatMap_docs_stacked .newline hitems

namespace MapLit

variable {items items' : List Item}

theorem forall₂_ordinaryItems (h : List.Forall₂ (Item.Alike Node.role) items items') :
    List.Forall₂ (Item.Alike Node.role) (ordinaryItems items) (ordinaryItems items') := by
  refine List.rel_filter (fun item item' hitem => ?_) h
  show (item.entry.node.role == .ordinary) = true ↔ (item'.entry.node.role == .ordinary) = true
  rw [hitem.role]

theorem forall₂_boardItems (h : List.Forall₂ (Item.Alike Node.role) items items') :
    List.Forall₂ (Item.Alike Node.role) (boardItems items) (boardItems items') := by
  rw [boardItems, boardItems, BoardKind.gather, BoardKind.gather]
  refine List.rel_flatMap (List.forall₂_same.mpr fun kind _ => rfl) ?_
  rintro kind _ rfl
  refine List.rel_filter (fun item item' hitem => ?_) h
  show (item.entry.node.role.kind? == some kind) = true ↔
    (item'.entry.node.role.kind? == some kind) = true
  rw [hitem.role]

/-- The placed items of maps whose entries are alike have the same documents. -/
theorem flatMap_docs_arrange {shift : Nat} (isFile oneLine : Bool) {es es' : List Entry}
    (h : List.Forall₂ (Entry.Alike Node.role shift) es es') :
    (arrange isFile oneLine es').flatMap Placed.docs =
      (arrange isFile oneLine es).flatMap Placed.docs := by
  have hitems : List.Forall₂ (Item.Alike Node.role) (items oneLine es) (items oneLine es') :=
    Item.forall₂_group (!oneLine) none h
  have hordinary := forall₂_ordinaryItems hitems
  have hboards := forall₂_boardItems hitems
  have hempty : (ordinaryItems (items oneLine es')).isEmpty =
      (ordinaryItems (items oneLine es)).isEmpty := by
    rw [Bool.eq_iff_iff, List.isEmpty_iff_length_eq_zero, List.isEmpty_iff_length_eq_zero,
      hordinary.length_eq]
  rw [arrange, arrange]
  cases oneLine with
  | true => exact Placed.flatMap_docs_inline (List.rel_append hordinary hboards)
  | false =>
      show (Placed.stacked _ _ ++ Placed.boards _ _).flatMap Placed.docs =
        (Placed.stacked _ _ ++ Placed.boards _ _).flatMap Placed.docs
      rw [List.flatMap_append, List.flatMap_append, hempty,
        Placed.flatMap_docs_stacked _ hordinary, Placed.flatMap_docs_boards _ hboards]

/-- Maps of entries that are alike have the same document, if both stand on one
line or neither does. -/
theorem docOf_congr {shift : Nat} {span span' : Span} (isFile : Bool) {es es' : List Entry}
    (hspan : span'.isOneLine = span.isOneLine)
    (h : List.Forall₂ (Entry.Alike Node.role shift) es es') :
    docOf span' isFile es' = docOf span isFile es := by
  rw [docOf, docOf, isInline, isInline, hspan, flatMap_docs_arrange isFile _ h]

end MapLit

end DiagramText
