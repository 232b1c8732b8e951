import DiagramText.Proofs.SourceSpacing

/-!
# What is printed behind a comment

A comment of the `#` kind goes to the end of its line, so whatever is printed behind it on
that line becomes part of it.  The layout of a map or an array therefore has to put a line
break behind each such comment.  This file says when it does.

It fails to in two cases.

* **The row stands on one line.**  Then a semicolon or the closing bracket follows the
  comment.
* **Another comment is attached to the comment.**  A comment stays on the line of the entry
  that it stood behind, and that entry may be a comment too.  Two comments that stand in no
  source at all are on the same line in this sense.

`Comment.endLine_iff` says that there are no other cases: over several lines, every comment
that no other comment is attached to is followed by a line break, whether an entry, a group of
boards, the closing bracket or the end of the file comes next.

## How the place of a comment is found

A row may have the same comment several times, and other entries may print the same leaves.
What stands behind *this* comment is found by putting other documents in its place: a document
has a place (`Doc.HasPlace`) if there are leaves in front of it and leaves behind it, whatever
is put there.  The document of a row has a place for each of its entries
(`Item.exists_place`), and the leaves behind it start with the lead of the entry that is
printed next, or with what closes the row (`MapLit.exists_encloses`).
-/

namespace DiagramText

/-! ## Places -/

namespace Doc

/-- A document with a place in it: whatever is put there, at the given level, the leaves
`before` stand in front of it and the leaves `after` behind it. -/
def HasPlace (n level : Nat) (before after : List Leaf) (around : Doc → Doc) : Prop :=
  ∀ d, d ≠ nil → (around d).leaves n = before ++ d.leaves level ++ after

theorem join_cons_ne_nil (sep : Doc) {d : Doc} (hd : d ≠ nil) (ds : List Doc) :
    join sep (d :: ds) ≠ nil := by
  rw [join]
  induction ds generalizing d with
  | nil => exact hd
  | cons e es ih => exact ih (by simp [hd])

theorem allNil_eq_false_of_mem {parts : List Doc} {d : Doc} (hmem : d ∈ parts) (hd : d ≠ nil) :
    allNil parts = false := by
  rw [← Bool.not_eq_true, allNil_iff]
  intro hall
  exact hd (hall d hmem)

end Doc

/-! ## The place of an entry in a row -/

namespace Item

/-- Without comments that stay, no entry is attached. -/
theorem isAttached_of_not_keep (role : Node → Role) (nodes : List Node) (k : Nat) :
    isAttached role false nodes k = false := by
  cases k with
  | zero => rfl
  | succ k =>
      rw [← Bool.not_eq_true, isAttached_succ_iff]
      rintro ⟨-, -, -, -, hkeep, -⟩
      exact absurd hkeep Bool.false_ne_true

/-- An entry splits an order without repetitions in one way. -/
theorem split_unique {before before' after after' : List Nat} {k : Nat}
    (hnodup : (before ++ k :: after).Nodup)
    (h : before ++ k :: after = before' ++ k :: after') : before = before' ∧ after = after' := by
  rw [List.nodup_middle, List.nodup_cons, List.mem_append, not_or] at hnodup
  obtain ⟨hbefore, -, hafter⟩ :=
    (List.append_cons_inj_of_notMem hnodup.1.1 hnodup.1.2).mp h
  exact ⟨hbefore, hafter⟩

/-- In an order without repetitions an entry has at most one neighbour on either side. -/
theorem eq_iff_head?_of_infix {before after : List Nat} {k x y : Nat}
    (hnodup : (before ++ k :: after).Nodup) (hpair : [x, y] <:+: before ++ k :: after) :
    x = k ↔ after.head? = some y := by
  obtain ⟨front, back, hsplit⟩ := hpair
  constructor
  · rintro rfl
    have hsplit' : before ++ x :: after = front ++ x :: y :: back := by rw [← hsplit]; simp
    rw [(split_unique hnodup hsplit').2, List.head?_cons]
  · intro hhead
    obtain ⟨rest, rfl⟩ := List.head?_eq_some_iff.mp hhead
    have hsplit' : before ++ [k] ++ y :: rest = front ++ [x] ++ y :: back := by
      rw [← hsplit.trans (List.append_cons before k _)]; simp
    have hends := (split_unique (by rwa [← List.append_cons]) hsplit').1
    exact (List.append_singleton_inj.mp hends).2.symm

/-- An entry that has another one in front of it is not the first. -/
theorem head?_ne_of_nodup {before after : List Nat} {k j : Nat}
    (hnodup : (before ++ k :: j :: after).Nodup) :
    (before ++ k :: j :: after).head? ≠ some j := by
  intro hhead
  obtain ⟨rest, hrest⟩ := List.head?_eq_some_iff.mp hhead
  rw [List.append_cons] at hrest hnodup
  exact absurd (split_unique hnodup (hrest.trans (List.nil_append _).symm)).1 (by simp)

/-- The parts of a row with another document in the place of an entry. -/
theorem flatMap_replaced {before after : List Nat} {k : Nat}
    (hnodup : (before ++ k :: after).Nodup) (lead : Nat → List Doc) (docs : Nat → Doc) (d : Doc) :
    ((before ++ k :: after).flatMap fun j => lead j ++ [if j = k then d else docs j]) =
      (before.flatMap fun j => lead j ++ [docs j]) ++
        (lead k ++ d :: after.flatMap fun j => lead j ++ [docs j]) := by
  rw [List.nodup_middle, List.nodup_cons] at hnodup
  have hother : ∀ j ∈ before ++ after,
      lead j ++ [if j = k then d else docs j] = lead j ++ [docs j] := by
    intro j hj
    have hne : j ≠ k := by
      rintro rfl
      exact hnodup.1 hj
    rw [if_neg hne]
  rw [List.flatMap_append, List.flatMap_cons, if_pos rfl,
    List.flatMap_congr fun j hj => hother j (List.mem_append_left _ hj),
    List.flatMap_congr fun j hj => hother j (List.mem_append_right _ hj), List.append_assoc,
    List.singleton_append]

variable {role : Node → Role} {isFile oneLine : Bool} {nodes : List Node} {order : List Nat}

/-- The lead of an entry that is not the first breaks the line, unless the row stands on one
line or the entry is an attached comment. -/
theorem endLine_leaves_rowLead (role : Node → Role) (isFile oneLine : Bool) {k : Nat}
    (hlt : k < nodes.length) (hhead : order.head? ≠ some k) (level : Nat) :
    (rowLead role isFile oneLine nodes order k).flatMap (Doc.leaves level) ≠ [] ∧
      (Leaf.EndLine ((rowLead role isFile oneLine nodes order k).flatMap (Doc.leaves level)) ↔
        oneLine = false ∧ isAttached role true nodes k = false) := by
  rw [rowLead_of_head?_ne hhead]
  have hnode := List.getElem?_eq_getElem hlt
  cases oneLine with
  | true =>
      have hlead := lead_of_not_isAttached (isAttached_of_not_keep role nodes k) hnode
        (.later true)
      rw [Bool.not_true, hlead]
      simp [Separator.later, Separator.docs, Doc.leaves_ofString, Leaf.endLine_cons, Leaf.isBreak]
  | false =>
      rw [Bool.not_false]
      cases hattached : isAttached role true nodes k with
      | true =>
          rw [lead_of_isAttached hattached]
          simp [Doc.leaves_ofString, Leaf.endLine_cons, Leaf.isBreak]
      | false =>
          rw [lead_of_not_isAttached hattached hnode, Separator.later, if_neg Bool.false_ne_true]
          split <;> simp [Separator.docs, Leaf.endLine_cons, Leaf.isBreak]

/-- Over several lines, the next entry of the source is attached exactly if the entry that is
printed next is, and then they are the same. -/
theorem isAttached_succ_iff_head? {lead : Nat → List Doc} {before after : List Nat} {k : Nat}
    (hfollows : FollowsSource role nodes (before ++ k :: after) lead)
    (hnodup : (before ++ k :: after).Nodup) :
    isAttached role true nodes (k + 1) = true ↔
      ∃ j, after.head? = some j ∧ isAttached role true nodes j = true := by
  have hneighbour : ∀ j, isAttached role true nodes j = true →
      (j - 1 = k ↔ after.head? = some j) := by
    intro j hj
    exact eq_iff_head?_of_infix hnodup (hfollows.attached j hj).2
  constructor
  · intro hattached
    exact ⟨k + 1, (hneighbour (k + 1) hattached).mp rfl, hattached⟩
  · rintro ⟨j, hhead, hattached⟩
    have hprev := (hneighbour j hattached).mpr hhead
    cases j with
    | zero => exact absurd hattached Bool.false_ne_true
    | succ i => rwa [← hprev]

/-- What is printed behind the entry at position `k`, up to what closes the row, breaks the
line unless the row stands on one line or the next entry of the source is attached. -/
theorem endLine_rest_iff {before after : List Nat} {k : Nat}
    (horder : order = before ++ k :: after) (hnodup : order.Nodup)
    (hlt : ∀ j ∈ order, j < nodes.length)
    (hfollows : oneLine = false →
      FollowsSource role nodes order (rowLead role isFile oneLine nodes order))
    (docs : Nat → Doc) (level : Nat) {back : List Leaf}
    (hback : Leaf.EndLine back ↔ oneLine = false) :
    Leaf.EndLine ((after.flatMap fun j =>
        rowLead role isFile oneLine nodes order j ++ [docs j]).flatMap (Doc.leaves level) ++
      back) ↔ oneLine = false ∧ isAttached role true nodes (k + 1) = false := by
  have hnext : oneLine = false → (isAttached role true nodes (k + 1) = true ↔
      ∃ j, after.head? = some j ∧ isAttached role true nodes j = true) := by
    intro honeLine
    exact isAttached_succ_iff_head? (horder ▸ hfollows honeLine) (horder ▸ hnodup)
  cases after with
  | nil =>
      rw [List.flatMap_nil, List.flatMap_nil, List.nil_append, hback]
      refine ⟨fun honeLine => ⟨honeLine, ?_⟩, And.left⟩
      rw [← Bool.not_eq_true, hnext honeLine]
      simp
  | cons j after =>
      have hmem : j ∈ order := by simp [horder]
      have hhead : order.head? ≠ some j := by
        rw [horder]
        exact head?_ne_of_nodup (horder ▸ hnodup)
      have hlead := endLine_leaves_rowLead role isFile oneLine (hlt j hmem) hhead level
      rw [List.flatMap_cons, List.append_assoc, List.flatMap_append, List.append_assoc,
        Leaf.endLine_append hlead.1, hlead.2]
      refine and_congr_right fun honeLine => ?_
      rw [← Bool.not_eq_true, ← Bool.not_eq_true, hnext honeLine]
      simp

/-- **Every entry of a row has its place.**  The leaves behind it start with a line break
unless the row stands on one line or the next entry of the source is attached to it. -/
theorem exists_place {n level : Nat} {front back : List Leaf} {enclosing : List Doc → Doc}
    (hencloses : Doc.Encloses n level front back enclosing)
    (hback : Leaf.EndLine back ↔ oneLine = false) (hnodup : order.Nodup)
    (hlt : ∀ j ∈ order, j < nodes.length)
    (hfollows : oneLine = false →
      FollowsSource role nodes order (rowLead role isFile oneLine nodes order))
    (docs : Nat → Doc) {k : Nat} (hk : k ∈ order) :
    ∃ before after,
      Doc.HasPlace n level before after (fun d => enclosing (order.flatMap fun j =>
        rowLead role isFile oneLine nodes order j ++ [if j = k then d else docs j])) ∧
      (Leaf.EndLine after ↔ oneLine = false ∧ isAttached role true nodes (k + 1) = false) := by
  obtain ⟨before, after, horder⟩ := List.append_of_mem hk
  refine ⟨front ++ (before.flatMap (fun j => rowLead role isFile oneLine nodes order j ++
      [docs j]) ++ rowLead role isFile oneLine nodes order k).flatMap (Doc.leaves level), _, ?_,
    endLine_rest_iff horder hnodup hlt hfollows docs level hback⟩
  intro d hd
  have hsplit := flatMap_replaced (horder ▸ hnodup) (rowLead role isFile oneLine nodes order)
    docs d
  rw [← horder] at hsplit
  have hparts : Doc.allNil (order.flatMap fun j =>
      rowLead role isFile oneLine nodes order j ++ [if j = k then d else docs j]) = false := by
    rw [hsplit]
    exact Doc.allNil_eq_false_of_mem (by simp) hd
  rw [hencloses _ hparts, hsplit]
  simp [List.append_assoc]

end Item

/-! ## Comments in maps and arrays -/

namespace Node

/-- The entries of a list, with another document for the one at a position. -/
def entriesWith (nodes : List Node) (k : Nat) (d : Doc) : List Entry :=
  (entries nodes).modify k fun e => { e with doc := d }

variable {nodes : List Node} {k : Nat}

theorem map_node_entriesWith (nodes : List Node) (k : Nat) (d : Doc) :
    (entriesWith nodes k d).map Entry.node = nodes := by
  refine List.ext_getElem? fun j => ?_
  rw [entriesWith, List.getElem?_map, List.getElem?_modify, entries_eq_map, List.getElem?_map]
  split <;> cases nodes[j]? <;> rfl

theorem docAt_entriesWith (hlt : k < nodes.length) (d : Doc) (j : Nat) :
    Entry.docAt (entriesWith nodes k d) j = if j = k then d else docAt nodes j := by
  have hlt' : k < (entries nodes).length := by
    rwa [entries_eq_map, List.length_map]
  rw [← Entry.docAt_entries, Entry.docAt, Entry.docAt, entriesWith]
  by_cases hj : j = k
  · rw [if_pos hj, hj, List.getElem?_modify_eq, List.getElem?_eq_getElem hlt']
    rfl
  · rw [if_neg hj, List.getElem?_modify_ne _ _ (Ne.symm hj)]

/-- An entry that is replaced by itself. -/
theorem entriesWith_toDoc {node : Node} (hnode : nodes[k]? = some node) :
    entriesWith nodes k node.toDoc = entries nodes := by
  refine List.ext_getElem? fun j => ?_
  rw [entriesWith]
  by_cases hj : k = j
  · rw [← hj, List.getElem?_modify_eq, entries_eq_map, List.getElem?_map, hnode]
    rfl
  · rw [List.getElem?_modify_ne _ _ hj]

end Node

namespace MapLit

/-- The document of a map with another document for the entry at a position. -/
def docWith (m : MapLit) (k : Nat) (d : Doc) : Doc :=
  docOf m.span m.isFile (Node.entriesWith m.nodes k d)

variable {m : MapLit} {k : Nat}

theorem docWith_toDoc {node : Node} (hnode : m.nodes[k]? = some node) :
    m.docWith k node.toDoc = m.toDoc := by
  rw [docWith, Node.entriesWith_toDoc hnode, toDoc_eq_docOf]

theorem docWith_eq_lead (hlt : k < m.nodes.length) (d : Doc) :
    m.docWith k d = m.frame (m.printOrder.flatMap fun j =>
      m.lead j ++ [if j = k then d else Node.docAt m.nodes j]) := by
  have hdoc := m.docOf_eq_lead (Node.map_node_entriesWith m.nodes k d)
  simp only [Node.docAt_entriesWith hlt] at hdoc
  rw [docWith, hdoc]

theorem lt_of_mem_printOrder (hk : k ∈ m.printOrder) : k < m.nodes.length := by
  have hrange := m.printOrder_perm.mem_iff.mp hk
  exact List.mem_range.mp (List.mem_filter.mp hrange).1

/-- Every entry of a map that is printed has its place. -/
theorem exists_place (hk : k ∈ m.printOrder) (n : Nat) :
    ∃ level before after, Doc.HasPlace n level before after (m.docWith k) ∧
      (Leaf.EndLine after ↔ isInline m.span m.isFile = false ∧
        Item.isAttached Node.role true m.nodes (k + 1) = false) := by
  obtain ⟨level, front, back, hencloses, hback⟩ := m.exists_encloses n
  obtain ⟨before, after, hplace, hafter⟩ := Item.exists_place hencloses hback m.nodup_printOrder
    (fun _ => lt_of_mem_printOrder) m.followsSource (Node.docAt m.nodes) hk
  refine ⟨level, before, after, ?_, hafter⟩
  intro d hd
  rw [docWith_eq_lead (lt_of_mem_printOrder hk)]
  exact hplace d hd

end MapLit

namespace ArrayLit

/-- The document of an array with another document for the entry at a position. -/
def docWith (a : ArrayLit) (k : Nat) (d : Doc) : Doc :=
  docOf a.span (Node.entriesWith a.nodes k d)

variable {a : ArrayLit} {k : Nat}

theorem docWith_toDoc {node : Node} (hnode : a.nodes[k]? = some node) :
    a.docWith k node.toDoc = a.toDoc := by
  rw [docWith, Node.entriesWith_toDoc hnode, toDoc_eq_docOf]

theorem docWith_eq_lead (hlt : k < a.nodes.length) (d : Doc) :
    a.docWith k d = Brackets.square.enclose a.span.isOneLine
      ((List.range a.nodes.length).flatMap fun j =>
        a.lead j ++ [if j = k then d else Node.docAt a.nodes j]) := by
  have hdoc := a.docOf_eq_lead (Node.map_node_entriesWith a.nodes k d)
  simp only [Node.docAt_entriesWith hlt] at hdoc
  rw [docWith, hdoc]

/-- Every entry of an array has its place. -/
theorem exists_place (hk : k < a.nodes.length) (n : Nat) :
    ∃ level before after, Doc.HasPlace n level before after (a.docWith k) ∧
      (Leaf.EndLine after ↔ a.span.isOneLine = false ∧
        Item.isAttached (fun _ => .ordinary) true a.nodes (k + 1) = false) := by
  obtain ⟨level, front, back, hencloses, hback⟩ :=
    Brackets.square.exists_encloses (by decide) a.span.isOneLine n
  obtain ⟨before, after, hplace, hafter⟩ := Item.exists_place hencloses hback List.nodup_range
    (fun _ => List.mem_range.mp) a.followsSource (Node.docAt a.nodes) (List.mem_range.mpr hk)
  refine ⟨level, before, after, ?_, hafter⟩
  intro d hd
  rw [docWith_eq_lead hk]
  exact hplace d hd

end ArrayLit

namespace Comment

/-- A comment of the `#` kind is never printed as nothing. -/
theorem toDoc_line_ne_nil (text : String) (span : Span) : toDoc ⟨.line, text, span⟩ ≠ .nil := by
  obtain ⟨line, more, hlines⟩ := List.exists_cons_of_ne_nil (Text.splitLines_ne_nil text.toList)
  rw [toDoc, Text.lines, hlines, List.map_cons, List.map_cons]
  refine Doc.join_cons_ne_nil _ ?_ _
  rw [Ne, Doc.ofString_eq_nil_iff, markedLine]
  split <;> simp

theorem mem_printOrder {m : MapLit} {k : Nat} {c : Comment}
    (hnode : m.nodes[k]? = some (.comment c)) : k ∈ m.printOrder := by
  rw [m.printOrder_perm.mem_iff, List.mem_filter, List.mem_range, MapLit.isDropped, MapLit.roleAt,
    hnode]
  exact ⟨(List.getElem?_eq_some_iff.mp hnode).1, rfl⟩

/-- **When a comment ends its line.**  In the leaves of a map or an array, a comment of the `#`
kind is followed by a line break exactly if the row does not stand on one line and the next
entry of the source is not attached to the comment.  The leaves in front of the comment and
behind it are those that stand around whatever document is put in its place. -/
theorem endLine_iff (text : String) (span : Span) (n : Nat) :
    (∀ (m : MapLit) (k : Nat), m.nodes[k]? = some (.comment ⟨.line, text, span⟩) →
      ∃ level before after, Doc.HasPlace n level before after (m.docWith k) ∧
        m.toDoc.leaves n = before ++ (toDoc ⟨.line, text, span⟩).leaves level ++ after ∧
        (Leaf.EndLine after ↔ MapLit.isInline m.span m.isFile = false ∧
          Item.isAttached Node.role true m.nodes (k + 1) = false)) ∧
    ∀ (a : ArrayLit) (k : Nat), a.nodes[k]? = some (.comment ⟨.line, text, span⟩) →
      ∃ level before after, Doc.HasPlace n level before after (a.docWith k) ∧
        a.toDoc.leaves n = before ++ (toDoc ⟨.line, text, span⟩).leaves level ++ after ∧
        (Leaf.EndLine after ↔ a.span.isOneLine = false ∧
          Item.isAttached (fun _ => .ordinary) true a.nodes (k + 1) = false) := by
  have hne := toDoc_line_ne_nil text span
  constructor
  · intro m k hnode
    obtain ⟨level, before, after, hplace, hafter⟩ := MapLit.exists_place (mem_printOrder hnode) n
    have hdoc := MapLit.docWith_toDoc hnode
    rw [Node.toDoc] at hdoc
    refine ⟨level, before, after, hplace, ?_, hafter⟩
    rw [← hdoc, hplace _ hne]
  · intro a k hnode
    have hlt := (List.getElem?_eq_some_iff.mp hnode).1
    obtain ⟨level, before, after, hplace, hafter⟩ := ArrayLit.exists_place hlt n
    have hdoc := ArrayLit.docWith_toDoc hnode
    rw [Node.toDoc] at hdoc
    refine ⟨level, before, after, hplace, ?_, hafter⟩
    rw [← hdoc, hplace _ hne]

/-- A comment that stands in no source. -/
def remark (text : String) : Comment := ⟨.line, text, .unset⟩

/-- A file of two comments that stand in no source. -/
def twoRemarks : MapLit := .file [.comment (remark "a"), .comment (remark "b")]

/-- The same comments in an array on one line. -/
def remarkArray : ArrayLit := ⟨[.comment (remark "a"), .comment (remark "b")], .unset⟩

/-- The second comment of the file is printed on the line of the first, and the array is closed
on the line of its last comment. -/
theorem endLine_iff_twoRemarks :
    twoRemarks.toDoc.leaves 0 = [.text "# a", .text " ", .text "# b", .hardLine 0] ∧
      (∃ level before after, Doc.HasPlace 0 level before after (twoRemarks.docWith 0) ∧
        ¬ Leaf.EndLine after) ∧
      (∃ level before after, Doc.HasPlace 0 level before after (twoRemarks.docWith 1) ∧
        Leaf.EndLine after) ∧
      ∃ level before after, Doc.HasPlace 0 level before after (remarkArray.docWith 1) ∧
        ¬ Leaf.EndLine after := by
  obtain ⟨level₀, before₀, after₀, hplace₀, -, hend₀⟩ :=
    (endLine_iff "a" .unset 0).1 twoRemarks 0 rfl
  obtain ⟨level₁, before₁, after₁, hplace₁, -, hend₁⟩ :=
    (endLine_iff "b" .unset 0).1 twoRemarks 1 rfl
  obtain ⟨level₂, before₂, after₂, hplace₂, -, hend₂⟩ :=
    (endLine_iff "b" .unset 0).2 remarkArray 1 rfl
  refine ⟨by decide +kernel, ⟨level₀, before₀, after₀, hplace₀, ?_⟩,
    ⟨level₁, before₁, after₁, hplace₁, ?_⟩, ⟨level₂, before₂, after₂, hplace₂, ?_⟩⟩
  · exact mt hend₀.mp (by decide)
  · exact hend₁.mpr (by decide)
  · exact mt hend₂.mp (by decide)

end Comment
end DiagramText
