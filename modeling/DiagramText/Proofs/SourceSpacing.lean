import DiagramText.Proofs.EntryOrder
import Mathlib.Data.List.Infix

/-!
# Comments and blank lines of the source

Over several lines a row of entries keeps two traits of its source: a comment stays on the
line of the entry that it stood behind, and where there was a blank line there still is one.
This file says what that means, entry by entry.

**The document of a row is its entries in the printed order, each behind its lead**
(`MapLit.toDoc_eq_lead`, `ArrayLit.toDoc_eq_lead`).  The lead of an entry can be read off its
position: an attached comment has a space in front of it, the first entry has what opens the
row, and any other entry has the separator for its role and for the blank line of the source.

**Such a row follows its source** (`FollowsSource`).  An attached comment is printed directly
behind the entry that it is attached to, even if that is a group of boards and has moved.  For
an entry on a line of its own, the blank line is measured from the entry before it *in the
source*: it makes no difference whether that entry is printed in front of it, is a comment
attached to another, has moved to the end, or is not printed at all.

## How the first entry is dealt with

The separators of a row are those of `Separator.later`, except that the first item has that of
`Separator.first` (`Placed.row`).  So the pieces of a row have the head of one list of pieces
and the tail of another, and both lists are known by position
(`Item.map_pieces_selected`).  Positions occur once in the printed order, so that a position
is the first one exactly if it is the head.
-/

namespace DiagramText

/-! ## Separators -/

namespace Separator

/-- What stands in front of the first item of a row. -/
def first (isFile oneLine : Bool) (role : Role) : Separator :=
  if isFile || oneLine then .nothing else if role == .ordinary then .newline else .blankLine

/-- What stands in front of an item that has another one before it. -/
def later (oneLine : Bool) (role : Role) (gap : Bool) : Separator :=
  if oneLine then .semicolon
  else if role == .ordinary && !gap then .newline
  else .blankLine

end Separator

/-- Items in a row, the first one behind what opens the row. -/
def Placed.row (role : Node → Role) (isFile oneLine : Bool) : List Item → List Placed
  | [] => []
  | item :: rest =>
      spaced role (fun r _ => .first isFile oneLine r) item ::
        rest.map (spaced role (.later oneLine))

namespace Placed

/-- An ordinary item has a blank line in front of it where the source has one. -/
theorem spaced_later_of_ordinary {role : Node → Role} {item : Item}
    (h : role item.entry.node = .ordinary) :
    spaced role (.later false) item =
      ⟨if item.afterGap then .blankLine else .newline, item⟩ := by
  rw [spaced, h]
  cases item.afterGap <;> rfl

/-- A group of boards always has a blank line in front of it. -/
theorem spaced_later_of_board {role : Node → Role} {item : Item}
    (h : role item.entry.node ≠ .ordinary) :
    spaced role (.later false) item = ⟨.blankLine, item⟩ := by
  rw [spaced, Separator.later, beq_false_of_ne h]
  rfl

/-- Ordinary items below each other are a row. -/
theorem stacked_eq_row {role : Node → Role} {items : List Item} (isFile : Bool)
    (h : ∀ item ∈ items, role item.entry.node = .ordinary) :
    stacked (if isFile then .nothing else .newline) items = row role isFile false items := by
  cases items with
  | nil => rfl
  | cons item rest =>
      rw [List.forall_mem_cons] at h
      have hrest := List.map_congr_left fun item hitem => spaced_later_of_ordinary (h.2 item hitem)
      rw [stacked, row, hrest, spaced, h.1]
      cases isFile <;> rfl

/-- Groups of boards below each other are a row. -/
theorem boards_eq_row {role : Node → Role} {items : List Item} (isFile : Bool)
    (h : ∀ item ∈ items, role item.entry.node ≠ .ordinary) :
    boards (if isFile then .nothing else .blankLine) items = row role isFile false items := by
  cases items with
  | nil => rfl
  | cons item rest =>
      rw [List.forall_mem_cons] at h
      have hrest := List.map_congr_left fun item hitem => spaced_later_of_board (h.2 item hitem)
      rw [boards, row, hrest, spaced, Separator.first, beq_false_of_ne h.1]
      cases isFile <;> rfl

/-- Behind other items, groups of boards go on with the row. -/
theorem row_append_boards {role : Node → Role} {items groups : List Item} (isFile : Bool)
    (hne : items ≠ []) (h : ∀ item ∈ groups, role item.entry.node ≠ .ordinary) :
    row role isFile false (items ++ groups) =
      row role isFile false items ++ boards .blankLine groups := by
  obtain ⟨item, rest, rfl⟩ := List.exists_cons_of_ne_nil hne
  have hgroups : groups.map (spaced role (.later false)) = boards .blankLine groups := by
    rw [List.map_congr_left fun item hitem => spaced_later_of_board (h item hitem)]
    cases groups <;> rfl
  rw [List.cons_append, row, row, List.map_append, hgroups, List.cons_append]

end Placed

/-- The elements of an array are a row of ordinary entries. -/
theorem ArrayLit.arrange_eq_row (oneLine : Bool) (es : List Entry) :
    arrange oneLine es =
      Placed.row (fun _ => .ordinary) false oneLine
        (Item.group (fun _ => .ordinary) (!oneLine) none es) := by
  rw [arrange]
  cases oneLine with
  | true => cases Item.group (fun _ => .ordinary) (!true) none es <;> rfl
  | false => exact Placed.stacked_eq_row false fun _ _ => rfl

/-- The entries of a map are a row, the ordinary ones in front of the groups of boards. -/
theorem MapLit.arrange_eq_row (isFile oneLine : Bool) (es : List Entry) :
    arrange isFile oneLine es =
      Placed.row Node.role isFile oneLine
        (ordinaryItems (items oneLine es) ++ boardItems (items oneLine es)) := by
  have hordinary : ∀ item ∈ ordinaryItems (items oneLine es),
      item.entry.node.role = .ordinary := by
    intro item hitem
    exact beq_iff_eq.mp (List.mem_filter.mp hitem).2
  have hboards : ∀ item ∈ boardItems (items oneLine es),
      item.entry.node.role ≠ .ordinary := by
    intro item hitem hrole
    have hkind := ((BoardKind.mem_gather _ _ _).mp hitem).2
    rw [hrole] at hkind
    exact absurd hkind (by decide)
  rw [arrange]
  cases oneLine with
  | true =>
      rw [if_pos rfl]
      cases ordinaryItems (items true es) ++ boardItems (items true es) with
      | nil => rfl
      | cons item rest => cases isFile <;> rfl
  | false =>
      rw [if_neg Bool.false_ne_true]
      by_cases hempty : ordinaryItems (items false es) = []
      · rw [hempty, List.isEmpty_nil, Bool.and_true, List.nil_append,
          ← Placed.boards_eq_row isFile hboards]
        rfl
      · have hsome : (ordinaryItems (items false es)).isEmpty = false := by simpa using hempty
        rw [Placed.row_append_boards isFile hempty hboards,
          ← Placed.stacked_eq_row isFile hordinary, hsome, Bool.and_false,
          if_neg Bool.false_ne_true]

/-! ## Rows by position -/

/-- The document of the entry at a position. -/
def Entry.docAt (es : List Entry) (k : Nat) : Doc := (es[k]?.map Entry.doc).getD .nil

namespace Item

/-- The items whose entry passes the first test, then those whose entry passes the second,
and so on. -/
def selected (tests : List (Node → Bool)) (items : List Item) : List Item :=
  tests.flatMap fun p => items.filter fun item => p item.entry.node

/-- The positions whose host passes the first test, then those whose host passes the second,
and so on. -/
def order (role : Node → Role) (keep : Bool) (nodes : List Node) (tests : List (Node → Bool)) :
    List Nat :=
  tests.flatMap fun p => (List.range nodes.length).filter (hosted role keep nodes p)

/-- What stands in front of the entry at a position of a row that is printed in the given
order. -/
def rowLead (role : Node → Role) (isFile oneLine : Bool) (nodes : List Node) (order : List Nat)
    (k : Nat) : List Doc :=
  if order.head? = some k then
    lead role (!oneLine) nodes (fun r _ => .first isFile oneLine r) k
  else lead role (!oneLine) nodes (.later oneLine) k

theorem rowLead_of_head? {role : Node → Role} {isFile oneLine : Bool} {nodes : List Node}
    {order : List Nat} {k : Nat} (h : order.head? = some k) :
    rowLead role isFile oneLine nodes order k =
      lead role (!oneLine) nodes (fun r _ => .first isFile oneLine r) k :=
  if_pos h

theorem rowLead_of_head?_ne {role : Node → Role} {isFile oneLine : Bool} {nodes : List Node}
    {order : List Nat} {k : Nat} (h : order.head? ≠ some k) :
    rowLead role isFile oneLine nodes order k = lead role (!oneLine) nodes (.later oneLine) k :=
  if_neg h

/-- Selected items print the positions in their order, each entry behind its lead. -/
theorem map_pieces_selected (role : Node → Role) (keep : Bool) (sep : Role → Bool → Separator)
    (tests : List (Node → Bool)) (es : List Entry) :
    ((selected tests (group role keep none es)).flatMap fun item =>
        (Placed.spaced role sep item).pieces).map (fun piece => (piece.1, some piece.2)) =
      (order role keep (es.map Entry.node) tests).map fun k =>
        (lead role keep (es.map Entry.node) sep k, es[k]?) := by
  rw [selected, order, List.flatMap_assoc, List.map_flatMap, List.map_flatMap]
  refine List.flatMap_congr fun p _ => ?_
  rw [map_pieces_filter_group role keep sep p es none es 0 List.drop_zero rfl rfl,
    List.length_map, List.range_eq_range']

end Item

/-- A row of selected items prints the positions in their order, and the first one has what
opens the row in front of it. -/
theorem Placed.map_pieces_row (role : Node → Role) (isFile oneLine : Bool)
    (tests : List (Node → Bool)) (es : List Entry)
    (hnodup : (Item.order role (!oneLine) (es.map Entry.node) tests).Nodup) :
    ((row role isFile oneLine
        (Item.selected tests (Item.group role (!oneLine) none es))).flatMap pieces).map
          (fun piece => (piece.1, some piece.2)) =
      (Item.order role (!oneLine) (es.map Entry.node) tests).map fun k =>
        (Item.rowLead role isFile oneLine (es.map Entry.node)
          (Item.order role (!oneLine) (es.map Entry.node) tests) k, es[k]?) := by
  have hpieces := fun sep => Item.map_pieces_selected role (!oneLine) sep tests es
  generalize Item.selected tests (Item.group role (!oneLine) none es) = items at hpieces ⊢
  generalize Item.order role (!oneLine) (es.map Entry.node) tests = order at hpieces hnodup ⊢
  -- the head comes from the pieces behind `first`, and the tail from those behind `later`
  have hfirst := hpieces fun r _ => .first isFile oneLine r
  have hlater := hpieces (.later oneLine)
  cases items with
  | nil =>
      cases order with
      | nil => rfl
      | cons k ks => exact absurd hlater (by simp)
  | cons item rest =>
      cases order with
      | nil => exact absurd hlater (by simp [pieces])
      | cons k ks =>
          rw [List.nodup_cons] at hnodup
          rw [List.flatMap_cons, pieces, List.cons_append, List.map_cons, List.map_cons,
            List.cons.injEq] at hfirst hlater
          rw [row, List.flatMap_cons, pieces, List.cons_append, List.map_cons, hfirst.1,
            List.map_cons, Item.rowLead_of_head? rfl, List.flatMap_map]
          congr 1
          refine hlater.2.trans (List.map_congr_left fun j hj => ?_)
          have hne : (k :: ks).head? ≠ some j := by
            rintro ⟨⟩
            exact hnodup.1 hj
          rw [Item.rowLead_of_head?_ne hne]

/-- **The documents of a row are those of its entries, each behind its lead.** -/
theorem Placed.flatMap_docs_row (role : Node → Role) (isFile oneLine : Bool)
    (tests : List (Node → Bool)) (es : List Entry)
    (hnodup : (Item.order role (!oneLine) (es.map Entry.node) tests).Nodup) :
    (row role isFile oneLine
        (Item.selected tests (Item.group role (!oneLine) none es))).flatMap docs =
      (Item.order role (!oneLine) (es.map Entry.node) tests).flatMap fun k =>
        Item.rowLead role isFile oneLine (es.map Entry.node)
          (Item.order role (!oneLine) (es.map Entry.node) tests) k ++ [Entry.docAt es k] := by
  have hpieces := congrArg (List.flatMap fun piece : List Doc × Option Entry =>
    piece.1 ++ [(piece.2.map Entry.doc).getD .nil])
    (map_pieces_row role isFile oneLine tests es hnodup)
  rw [List.flatMap_map, List.flatMap_map, List.flatMap_assoc] at hpieces
  rw [List.flatMap_congr fun p _ => docs_eq_flatMap_pieces p]
  exact hpieces

/-! ## Arrays and maps by position -/

/-- The document of the node at a position. -/
def Node.docAt (nodes : List Node) (k : Nat) : Doc := (nodes[k]?.map Node.toDoc).getD .nil

theorem Entry.docAt_entries (nodes : List Node) (k : Nat) :
    Entry.docAt (Node.entries nodes) k = Node.docAt nodes k := by
  rw [Entry.docAt, Node.docAt, Node.entries_eq_map, List.getElem?_map, Option.map_map]
  rfl

namespace MapLit

/-- The tests for the roles that are printed, in the order in which they are. -/
def roleTests : List (Node → Bool) := printedRoles.map fun role node => node.role == role

theorem selected_roleTests (items : List Item) :
    Item.selected roleTests items = ordinaryItems items ++ boardItems items := by
  rw [ordinaryItems_append_boardItems, Item.selected, roleTests, List.flatMap_map]

theorem order_roleTests (m : MapLit) :
    Item.order Node.role (!isInline m.span m.isFile) m.nodes roleTests = m.printOrder := by
  rw [printOrder_eq, Item.order, roleTests, List.flatMap_map]
  refine List.flatMap_congr fun role _ => List.filter_congr fun k _ => ?_
  exact hosted_eq _ _ role k

theorem nodup_printOrder (m : MapLit) : m.printOrder.Nodup :=
  m.printOrder_perm.nodup_iff.mpr (List.nodup_range.filter _)

/-- What stands in front of the entry at a position of a map. -/
def lead (m : MapLit) (k : Nat) : List Doc :=
  Item.rowLead Node.role m.isFile (isInline m.span m.isFile) m.nodes m.printOrder k

/-- The document of a map, whatever the documents of its entries are. -/
theorem docOf_eq_lead (m : MapLit) {es : List Entry} (hes : es.map Entry.node = m.nodes) :
    docOf m.span m.isFile es =
      m.frame (m.printOrder.flatMap fun k => m.lead k ++ [Entry.docAt es k]) := by
  have hnodup := m.nodup_printOrder
  have hrow := Placed.flatMap_docs_row Node.role m.isFile (isInline m.span m.isFile) roleTests es
  rw [hes, order_roleTests, selected_roleTests] at hrow
  rw [docOf, frame, arrange_eq_row, items, hrow hnodup]
  rfl

theorem toDoc_eq_docOf (m : MapLit) :
    m.toDoc = docOf m.span m.isFile (Node.entries m.nodes) := by
  obtain ⟨nodes, span, isFile⟩ := m
  rw [toDoc]

/-- **The document of a map is its entries in the printed order, each behind its lead.** -/
theorem toDoc_eq_lead (m : MapLit) :
    m.toDoc = m.frame (m.printOrder.flatMap fun k => m.lead k ++ [Node.docAt m.nodes k]) := by
  have hdoc := m.docOf_eq_lead (Node.map_node_entries m.nodes)
  simp only [Entry.docAt_entries] at hdoc
  rw [toDoc_eq_docOf, hdoc]

end MapLit

namespace ArrayLit

theorem selected_all (items : List Item) : Item.selected [fun _ => true] items = items := by
  rw [Item.selected, List.flatMap_singleton, List.filter_true]

/-- An array prints its entries in their order. -/
theorem order_all (role : Node → Role) (keep : Bool) (nodes : List Node) :
    Item.order role keep nodes [fun _ => true] = List.range nodes.length := by
  rw [Item.order, List.flatMap_singleton, List.filter_eq_self]
  intro k hk
  have hlt : Item.host role keep nodes k < nodes.length := by
    rw [List.mem_range] at hk
    rw [Item.host]
    split <;> omega
  rw [Item.hosted, List.getElem?_eq_getElem hlt, Option.any_some]

/-- What stands in front of the entry at a position of an array. -/
def lead (a : ArrayLit) (k : Nat) : List Doc :=
  Item.rowLead (fun _ => .ordinary) false a.span.isOneLine a.nodes (List.range a.nodes.length) k

/-- The document of an array, whatever the documents of its entries are. -/
theorem docOf_eq_lead (a : ArrayLit) {es : List Entry} (hes : es.map Entry.node = a.nodes) :
    docOf a.span es = Brackets.square.enclose a.span.isOneLine
      ((List.range a.nodes.length).flatMap fun k => a.lead k ++ [Entry.docAt es k]) := by
  have hrow := Placed.flatMap_docs_row (fun _ => .ordinary) false a.span.isOneLine
    [fun _ => true] es
  rw [hes, order_all, selected_all] at hrow
  rw [docOf, arrange_eq_row, hrow List.nodup_range]
  rfl

theorem toDoc_eq_docOf (a : ArrayLit) : a.toDoc = docOf a.span (Node.entries a.nodes) := by
  obtain ⟨nodes, span⟩ := a
  rw [toDoc]

/-- **The document of an array is its entries in their order, each behind its lead.** -/
theorem toDoc_eq_lead (a : ArrayLit) :
    a.toDoc = Brackets.square.enclose a.span.isOneLine
      ((List.range a.nodes.length).flatMap fun k => a.lead k ++ [Node.docAt a.nodes k]) := by
  have hdoc := a.docOf_eq_lead (Node.map_node_entries a.nodes)
  simp only [Entry.docAt_entries] at hdoc
  rw [toDoc_eq_docOf, hdoc]

end ArrayLit

/-! ## Following the source -/

namespace Item

/-- A row of entries, printed over several lines in the given order and with the given leads,
that follows its source. -/
structure FollowsSource (role : Node → Role) (nodes : List Node) (order : List Nat)
    (lead : Nat → List Doc) : Prop where
  /-- An attached comment is printed directly behind the entry that it is attached to, with
  one space between them. -/
  attached : ∀ k, isAttached role true nodes k = true →
    lead k = [.ofString " "] ∧ [k - 1, k] <:+: order
  /-- Any other ordinary entry but the first starts a line, below a blank line exactly if the
  source has one between the entry and the one before it there. -/
  own_line : ∀ k ∈ order, isAttached role true nodes k = false →
    nodes[k]?.map role = some .ordinary → order.head? ≠ some k →
      lead k = if hasGap nodes k then [.bareLine, .hardLine] else [.hardLine]

theorem pair_infix_range {k n : Nat} (h : k + 1 < n) : [k, k + 1] <:+: List.range n := by
  obtain ⟨m, rfl⟩ : ∃ m, n = k + (2 + m) := ⟨n - (k + 2), by omega⟩
  rw [List.range_eq_range', ← List.range'_append_1, ← List.range'_append_1, Nat.zero_add,
    ← List.append_assoc]
  exact ⟨_, _, rfl⟩

/-- An attached comment comes directly behind its host in every order that has the host. -/
theorem pair_infix_order {role : Node → Role} {keep : Bool} {nodes : List Node}
    {tests : List (Node → Bool)} {k : Nat} {node : Node} {p : Node → Bool}
    (hattached : isAttached role keep nodes (k + 1) = true) (hnode : nodes[k]? = some node)
    (hmem : p ∈ tests) (hp : p node = true) :
    [k, k + 1] <:+: order role keep nodes tests := by
  obtain ⟨-, comment, -, hcomment, -, -, -, -, hfree⟩ := isAttached_succ_iff.mp hattached
  have hlt : k + 1 < nodes.length := (List.getElem?_eq_some_iff.mp hcomment).1
  have hpair := (pair_infix_range hlt).filter (hosted role keep nodes p)
  have hall : [k, k + 1].filter (hosted role keep nodes p) = [k, k + 1] := by
    rw [List.filter_eq_self, List.forall_mem_cons, List.forall_mem_singleton,
      hosted_of_not_isAttached hfree hnode, hosted_of_isAttached hattached hnode]
    exact ⟨hp, hp⟩
  rw [hall] at hpair
  exact hpair.trans (List.infix_of_mem_flatten (List.mem_map_of_mem hmem))

/-- A row follows its source if it prints the hosts of all attached comments. -/
theorem followsSource_rowLead (role : Node → Role) (isFile : Bool) (nodes : List Node)
    (tests : List (Node → Bool))
    (hhost : ∀ k, isAttached role true nodes (k + 1) = true →
      ∃ p ∈ tests, ∃ node, nodes[k]? = some node ∧ p node = true) :
    FollowsSource role nodes (order role true nodes tests)
      (rowLead role isFile false nodes (order role true nodes tests)) where
  attached := by
    intro k hk
    constructor
    · rw [rowLead]
      split <;> exact lead_of_isAttached hk _
    · cases k with
      | zero => exact absurd hk Bool.false_ne_true
      | succ k =>
          obtain ⟨p, hmem, node, hnode, hp⟩ := hhost k hk
          exact pair_infix_order hk hnode hmem hp
  own_line := by
    intro k _ hfree hrole hhead
    obtain ⟨node, hnode, hnodeRole⟩ := Option.map_eq_some_iff.mp hrole
    rw [rowLead_of_head?_ne hhead, Bool.not_false, lead_of_not_isAttached hfree hnode, hnodeRole]
    cases hasGap nodes k <;> rfl

end Item

/-- A map over several lines follows its source. -/
theorem MapLit.followsSource (m : MapLit) (h : isInline m.span m.isFile = false) :
    Item.FollowsSource Node.role m.nodes m.printOrder m.lead := by
  have hfollows := Item.followsSource_rowLead Node.role m.isFile m.nodes roleTests ?_
  · have horder := m.order_roleTests
    rw [h] at horder
    rw [show Item.order Node.role true m.nodes roleTests = m.printOrder from horder] at hfollows
    have hlead : m.lead = Item.rowLead Node.role m.isFile false m.nodes m.printOrder := by
      funext k
      rw [lead, h]
    rwa [hlead]
  · intro k hk
    obtain ⟨before, -, hbefore, -, -, -, -, hempty, -⟩ := Item.isAttached_succ_iff.mp hk
    have hprinted := (mem_printedRoles_iff before.role).mpr hempty
    exact ⟨fun node => node.role == before.role, List.mem_map_of_mem hprinted, before, hbefore,
      beq_self_eq_true _⟩

/-- An array over several lines follows its source. -/
theorem ArrayLit.followsSource (a : ArrayLit) (h : a.span.isOneLine = false) :
    Item.FollowsSource (fun _ => .ordinary) a.nodes (List.range a.nodes.length) a.lead := by
  have hfollows := Item.followsSource_rowLead (fun _ => .ordinary) false a.nodes
    [fun _ => true] ?_
  · have hlead : a.lead = Item.rowLead (fun _ => .ordinary) false false a.nodes
        (List.range a.nodes.length) := by
      funext k
      rw [lead, h]
    rw [order_all] at hfollows
    rwa [hlead]
  · intro k hk
    obtain ⟨before, -, hbefore, -⟩ := Item.isAttached_succ_iff.mp hk
    exact ⟨_, List.mem_singleton_self _, before, hbefore, rfl⟩

/-- **Comments and blank lines follow the source.**  A file, and a map or an array that did
not stand on one line, prints its entries in their order, each behind its lead.  The lead of
an attached comment is a space, and the comment stands directly behind the entry that it is
attached to.  Any other entry that is printed in sequence and is not the first one starts a
line, below a blank line exactly if the source has one between the entry and the one before
it in the source, whatever becomes of that one.  And all of this stands in the document, inside
of what the row has around it. -/
theorem Item.toDoc_followsSource :
    (∀ m : MapLit, MapLit.isInline m.span m.isFile = false →
      m.toDoc = m.frame (m.printOrder.flatMap fun k => m.lead k ++ [Node.docAt m.nodes k]) ∧
        m.toDoc.Holds m.frame
          (m.printOrder.flatMap fun k => m.lead k ++ [Node.docAt m.nodes k]) ∧
        FollowsSource Node.role m.nodes m.printOrder m.lead) ∧
    ∀ a : ArrayLit, a.span.isOneLine = false →
      a.toDoc = Brackets.square.enclose false
          ((List.range a.nodes.length).flatMap fun k => a.lead k ++ [Node.docAt a.nodes k]) ∧
        a.toDoc.Holds (Brackets.square.enclose false)
          ((List.range a.nodes.length).flatMap fun k => a.lead k ++ [Node.docAt a.nodes k]) ∧
        FollowsSource (fun _ => .ordinary) a.nodes (List.range a.nodes.length) a.lead := by
  constructor
  · intro m h
    refine ⟨m.toDoc_eq_lead, ?_, m.followsSource h⟩
    rw [m.toDoc_eq_lead]
    exact m.holds_frame _
  · intro a h
    have hdoc := a.toDoc_eq_lead
    rw [h] at hdoc
    refine ⟨hdoc, ?_, a.followsSource h⟩
    rw [hdoc]
    exact Brackets.square.holds_enclose (by decide) false _

/-- Entries of all kinds: a key with a comment behind it, a group of boards with a comment
behind it, a key below it, a group without boards, and a key below a blank line. -/
def Item.spacedNodes : List Node :=
  let key (name : String) (line : Nat) : Node :=
    .key { Key.ofPath (.ofTexts [name]) with span := .ofLine line }
  let group (name : String) (line : Nat) (boards : List Node) : Node :=
    .key ⟨none, some (.ofTexts [name]), [], none, none, none, some (.map (.scope boards)),
      .ofLine line⟩
  let remark (line : Nat) : Node := .comment ⟨.line, "remark", .ofLine line⟩
  [key "a" 0, remark 0, group "layers" 2 [key "x" 2], remark 2, key "b" 3, group "steps" 4 [],
    key "c" 6]

/-- These entries as a file. -/
def Item.spacedFile : MapLit := .file spacedNodes

/-- These entries as an array. -/
def Item.spacedArray : ArrayLit := ⟨spacedNodes, .ofLines 0 7⟩

/-- In a file the comments go with the key and with the group, and the blank line in front of
the last key is measured from the group that is not printed.  In an array nothing moves. -/
theorem Item.toDoc_followsSource_spacedNodes :
    MapLit.isInline spacedFile.span spacedFile.isFile = false ∧
      spacedFile.printOrder = [0, 1, 4, 6, 2, 3] ∧
      (spacedFile.lead 3 = [.ofString " "] ∧ [2, 3] <:+: spacedFile.printOrder) ∧
      spacedFile.lead 4 = [.hardLine] ∧ spacedFile.lead 6 = [.bareLine, .hardLine] ∧
      spacedArray.span.isOneLine = false ∧
      (spacedArray.lead 3 = [.ofString " "] ∧ [2, 3] <:+: List.range 7) ∧
      spacedArray.lead 5 = [.hardLine] ∧ spacedArray.lead 6 = [.bareLine, .hardLine] := by
  have hfile := (toDoc_followsSource.1 spacedFile (by decide)).2.2
  have harray := (toDoc_followsSource.2 spacedArray (by decide)).2.2
  refine ⟨by decide, by decide, hfile.attached 3 (by decide), ?_, ?_, by decide,
    harray.attached 3 (by decide), ?_, ?_⟩
  · exact hfile.own_line 4 (by decide) (by decide) (by decide) (by decide)
  · exact hfile.own_line 6 (by decide) (by decide) (by decide) (by decide)
  · exact harray.own_line 5 (by decide) (by decide) (by decide) (by decide)
  · exact harray.own_line 6 (by decide) (by decide) (by decide) (by decide)

end DiagramText
