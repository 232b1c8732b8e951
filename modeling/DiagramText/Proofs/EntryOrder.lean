import DiagramText.Proofs.Enclosing
import DiagramText.Proofs.EntryPositions
import Mathlib.Data.List.Nodup

/-!
# The order in which the entries of a map are printed

A map prints its ordinary entries first and its groups of boards after them, and
leaves out the groups without boards.  Comments make this less simple than it
sounds.  Over several lines a comment stays with the entry whose last line it
stands on, so that a group of boards takes its comment along when it moves to the
end; but a group that is left out has no line for a comment to stay on, and the
comment after it is an entry like any other.  Whether a comment stays with the
entry before it thus depends on that entry, which may itself be a comment that
stays with the entry before it.

## The order, by position

The order is stated in terms of positions in the list of entries, since equal
entries may stand there several times.

* `Item.isAttached`, with the roles that entries have in a map: the entry at a
  position is a comment that stays on the line of the entry before it.
* `isTaken`: the comment stays with a group of boards, and moves with it.
* `printOrder`: the ordinary entries less the comments that are taken, then the
  groups of each kind, each with its comment behind it.

## Why the items are in this order

The layout does not speak of positions.  It first groups entries to items and then
sorts the items.  The link between the two is the entry that *governs* a position:
the entry at the position before, if a comment stays with it, and otherwise the
entry at the position itself.  An item is a run of positions that are governed by
one entry, so that selecting items by the role of their entry selects the
positions whose governor has that role (`map_some_entries_filter_group`).  This is
`Item.map_pieces_filter_group` for maps, where the test asks for a role.
-/

namespace DiagramText
namespace MapLit

open Item (isAttached isAttached_succ_iff)

/-! ## Positions -/

variable (keep : Bool) (nodes : List Node)

/-- The part that the entry at a position has in the placement of boards. -/
def roleAt (k : Nat) : Option Role := nodes[k]?.map Node.role

/-- Whether the entry at a position is a comment that stays with a group of
boards. -/
def isTaken : Nat → Bool
  | 0 => false
  | k + 1 => isAttached Node.role keep nodes (k + 1) && ((roleAt nodes k).bind Role.kind?).isSome

/-- The positions of the ordinary entries, less the comments that are taken along
by a group of boards. -/
def ordinaryPositions : List Nat :=
  (List.range nodes.length).filter fun k =>
    roleAt nodes k == some .ordinary && !isTaken keep nodes k

/-- The positions of the groups of boards of one kind, each followed by the
position of the comment that it takes along. -/
def boardPositions (kind : BoardKind) : List Nat :=
  ((List.range nodes.length).filter fun k => roleAt nodes k == some (.board kind)).flatMap
    fun k => k :: if isTaken keep nodes (k + 1) then [k + 1] else []

/-- The positions of the entries of a map, in the order in which they are printed. -/
def printOrder (m : MapLit) : List Nat :=
  let keep := !isInline m.span m.isFile
  ordinaryPositions keep m.nodes ++ boardPositions keep m.nodes .layers ++
    boardPositions keep m.nodes .scenarios ++ boardPositions keep m.nodes .steps

/-- The role of the entry that governs a position: the entry at the position, or
the one before it if a comment stays with that. -/
def governor (k : Nat) : Option Role :=
  if isAttached Node.role keep nodes k then roleAt nodes (k - 1) else roleAt nodes k

/-! ## Comments that stay with an entry -/

variable {keep nodes} {k : Nat}

/-- A comment is an ordinary entry. -/
theorem roleAt_of_isAttached (h : isAttached Node.role keep nodes k = true) :
    roleAt nodes k = some .ordinary := by
  cases k with
  | zero => exact absurd h Bool.false_ne_true
  | succ k =>
      obtain ⟨before, node, -, hnode, -, hcomment, -⟩ := isAttached_succ_iff.mp h
      obtain ⟨comment, rfl⟩ := (Node.isComment_iff node).mp hcomment
      rw [roleAt, hnode]
      rfl

/-- Nothing stays with a group without boards. -/
theorem roleAt_of_isAttached_succ (h : isAttached Node.role keep nodes (k + 1) = true) :
    roleAt nodes k = some .ordinary ∨ ∃ kind, roleAt nodes k = some (.board kind) := by
  obtain ⟨before, node, hbefore, -, -, -, -, hempty, -⟩ := isAttached_succ_iff.mp h
  rw [roleAt, hbefore, Option.map_some]
  cases hrole : before.role with
  | ordinary => exact Or.inl rfl
  | board kind => exact Or.inr ⟨kind, rfl⟩
  | emptyBoard kind =>
      rw [hrole] at hempty
      exact absurd hempty (by simp [Role.isEmptyBoard])

/-- A comment is taken along exactly if a group of boards governs its position. -/
theorem isTaken_succ_iff :
    isTaken keep nodes (k + 1) = true ↔
      isAttached Node.role keep nodes (k + 1) = true ∧
        ∃ kind, roleAt nodes k = some (.board kind) := by
  rw [isTaken, Bool.and_eq_true]
  refine and_congr_right fun h => ?_
  rcases roleAt_of_isAttached_succ h with hrole | ⟨kind, hrole⟩
  · simp [hrole, Role.kind?]
  · simp [hrole, Role.kind?]

/-- A comment that stays with no entry is not taken along by one. -/
theorem isTaken_of_not_isAttached (h : isAttached Node.role keep nodes k = false) :
    isTaken keep nodes k = false := by
  cases k with
  | zero => rfl
  | succ k => rw [isTaken, h, Bool.false_and]

theorem governor_of_isAttached (h : isAttached Node.role keep nodes (k + 1) = true) :
    governor keep nodes (k + 1) = roleAt nodes k := by
  rw [governor, if_pos h, Nat.add_sub_cancel]

theorem governor_of_not_isAttached (h : isAttached Node.role keep nodes k = false) :
    governor keep nodes k = roleAt nodes k := by
  rw [governor, h, if_neg Bool.false_ne_true]

/-- An ordinary entry that is not taken along is governed by an ordinary entry,
and conversely. -/
theorem governor_eq_ordinary_iff (keep : Bool) (nodes : List Node) (k : Nat) :
    governor keep nodes k = some .ordinary ↔
      roleAt nodes k = some .ordinary ∧ isTaken keep nodes k = false := by
  cases hattached : isAttached Node.role keep nodes k with
  | false => simp [governor_of_not_isAttached hattached, isTaken_of_not_isAttached hattached]
  | true =>
      cases k with
      | zero => exact absurd hattached Bool.false_ne_true
      | succ k =>
          rw [governor_of_isAttached hattached, roleAt_of_isAttached hattached,
            ← Bool.not_eq_true, isTaken_succ_iff]
          rcases roleAt_of_isAttached_succ hattached with hrole | ⟨kind, hrole⟩
          · simp [hrole]
          · simp [hrole, hattached]

/-- Where an entry is governed by a group without boards, it is that group. -/
theorem governor_eq_emptyBoard_iff (keep : Bool) (nodes : List Node) (k : Nat)
    (kind : BoardKind) :
    governor keep nodes k = some (.emptyBoard kind) ↔
      roleAt nodes k = some (.emptyBoard kind) := by
  cases hattached : isAttached Node.role keep nodes k with
  | false => rw [governor_of_not_isAttached hattached]
  | true =>
      cases k with
      | zero => exact absurd hattached Bool.false_ne_true
      | succ k =>
          rw [governor_of_isAttached hattached, roleAt_of_isAttached hattached]
          rcases roleAt_of_isAttached_succ hattached with hrole | ⟨kind', hrole⟩
          · simp [hrole]
          · simp [hrole]

/-- A position has a governor exactly if an entry stands there. -/
theorem governor_isSome_iff (keep : Bool) (nodes : List Node) (k : Nat) :
    (governor keep nodes k).isSome = true ↔ k < nodes.length := by
  cases hattached : isAttached Node.role keep nodes k with
  | false => simp [governor_of_not_isAttached hattached, roleAt]
  | true =>
      cases k with
      | zero => exact absurd hattached Bool.false_ne_true
      | succ k =>
          obtain ⟨before, node, hbefore, hnode, -⟩ := isAttached_succ_iff.mp hattached
          have hlt : k + 1 < nodes.length := (List.getElem?_eq_some_iff.mp hnode).1
          rw [governor_of_isAttached hattached, roleAt, hbefore]
          simp [hlt]

/-! ## The order is the order of the governors -/

/-- The ordinary positions are those that are governed by ordinary entries. -/
theorem ordinaryPositions_eq (keep : Bool) (nodes : List Node) :
    ordinaryPositions keep nodes =
      (List.range nodes.length).filter fun k => governor keep nodes k == some .ordinary := by
  refine List.filter_congr fun k _ => ?_
  rw [Bool.eq_iff_iff, Bool.and_eq_true, beq_iff_eq, beq_iff_eq, Bool.not_eq_true',
    governor_eq_ordinary_iff]

/-- The comment at a position, if a group of that kind takes it along. -/
def takenAt (keep : Bool) (nodes : List Node) (kind : BoardKind) (k : Nat) : List Nat :=
  if isTaken keep nodes k && governor keep nodes k == some (.board kind) then [k] else []

/-- The comment that stays with an entry is taken along exactly if the entry is a
group of that kind. -/
theorem takenAt_succ (keep : Bool) (nodes : List Node) (kind : BoardKind) (k : Nat) :
    takenAt keep nodes kind (k + 1) =
      if isAttached Node.role keep nodes (k + 1) && roleAt nodes k == some (.board kind) then
        [k + 1]
      else [] := by
  unfold takenAt
  cases hattached : isAttached Node.role keep nodes (k + 1) with
  | false => rw [isTaken_of_not_isAttached hattached]; rfl
  | true =>
      rw [governor_of_isAttached hattached]
      by_cases hrole : roleAt nodes k = some (.board kind)
      · have htaken := isTaken_succ_iff.mpr ⟨hattached, kind, hrole⟩
        rw [htaken]
      · have hfalse : (roleAt nodes k == some (.board kind)) = false := by simpa using hrole
        rw [hfalse, Bool.and_false, Bool.and_false]

/-- What a group prints at its position is the group and the comment that it takes
along. -/
theorem cons_takenAt_of_board {keep : Bool} {nodes : List Node} {kind : BoardKind} {k : Nat}
    (h : roleAt nodes k = some (.board kind)) :
    (k :: if isTaken keep nodes (k + 1) then [k + 1] else []) =
      k :: takenAt keep nodes kind (k + 1) := by
  have htaken : isTaken keep nodes (k + 1) = isAttached Node.role keep nodes (k + 1) := by
    rw [isTaken, h]
    simp [Role.kind?]
  rw [takenAt_succ, htaken, h, beq_self_eq_true, Bool.and_true]

/-- Up to a position, groups with their comments are the positions that groups
govern, except that the last group may take along the comment at that position. -/
theorem flatMap_filter_range (keep : Bool) (nodes : List Node) (kind : BoardKind) (n : Nat) :
    (((List.range n).filter fun k => roleAt nodes k == some (.board kind)).flatMap
        fun k => k :: if isTaken keep nodes (k + 1) then [k + 1] else []) =
      ((List.range n).filter fun k => governor keep nodes k == some (.board kind)) ++
        takenAt keep nodes kind n := by
  induction n with
  | zero => rfl
  | succ n ih =>
      rw [List.range_succ, List.filter_append, List.flatMap_append, ih, List.filter_append,
        List.append_assoc, List.append_assoc]
      congr 1
      cases hattached : isAttached Node.role keep nodes n with
      | true =>
          -- a comment stands here: it is no group, and nothing stays with it
          obtain ⟨j, rfl⟩ : ∃ j, n = j + 1 := by
            cases n with
            | zero => exact absurd hattached Bool.false_ne_true
            | succ j => exact ⟨j, rfl⟩
          have hnext : isAttached Node.role keep nodes (j + 1 + 1) = false := by
            rw [← Bool.not_eq_true, isAttached_succ_iff]
            rintro ⟨before, node, -, -, -, -, -, -, hfree⟩
            rw [hattached] at hfree
            exact absurd hfree (by simp)
          have hcomment : (some Role.ordinary == some (.board kind)) = false := rfl
          rw [takenAt_succ, takenAt_succ, hattached, hnext, Bool.true_and, Bool.false_and,
            if_neg Bool.false_ne_true, List.append_nil, List.filter_singleton,
            List.filter_singleton, governor_of_isAttached hattached,
            roleAt_of_isAttached hattached, hcomment, cond_false, List.flatMap_nil,
            List.append_nil]
          cases roleAt nodes j == some (.board kind) <;> rfl
      | false =>
          have hnone : takenAt keep nodes kind n = [] := by
            rw [takenAt, isTaken_of_not_isAttached hattached]
            rfl
          rw [hnone, List.nil_append, List.filter_singleton, List.filter_singleton,
            governor_of_not_isAttached hattached]
          by_cases hrole : roleAt nodes n = some (.board kind)
          · rw [hrole, beq_self_eq_true, cond_true, List.flatMap_singleton,
              cons_takenAt_of_board hrole]
            rfl
          · have hfalse : (roleAt nodes n == some (.board kind)) = false := by simpa using hrole
            rw [takenAt_succ, hfalse, Bool.and_false]
            rfl

/-- The positions of the groups of a kind and their comments are those that groups
of that kind govern. -/
theorem boardPositions_eq (keep : Bool) (nodes : List Node) (kind : BoardKind) :
    boardPositions keep nodes kind =
      (List.range nodes.length).filter fun k => governor keep nodes k == some (.board kind) := by
  have hend : takenAt keep nodes kind nodes.length = [] := by
    have hnone : governor keep nodes nodes.length = none := by
      rw [← Option.not_isSome_iff_eq_none, governor_isSome_iff]
      exact Nat.lt_irrefl _
    rw [takenAt, hnone]
    simp
  rw [boardPositions, flatMap_filter_range, hend, List.append_nil]

/-- The roles whose entries are printed, in the order in which they are. -/
def printedRoles : List Role :=
  [.ordinary, .board .layers, .board .scenarios, .board .steps]

/-- The entries are printed in the order of their governors. -/
theorem printOrder_eq (m : MapLit) :
    m.printOrder = printedRoles.flatMap fun role =>
      (List.range m.nodes.length).filter fun k =>
        governor (!isInline m.span m.isFile) m.nodes k == some role := by
  rw [printOrder, ordinaryPositions_eq, boardPositions_eq, boardPositions_eq, boardPositions_eq]
  simp [printedRoles]

theorem mem_printedRoles_iff (role : Role) :
    role ∈ printedRoles ↔ role.isEmptyBoard = false := by
  cases role with
  | ordinary => decide
  | board kind => cases kind <;> decide
  | emptyBoard kind => cases kind <;> decide

/-- Whether the entry at a position is a group without boards. -/
def isDropped (nodes : List Node) (k : Nat) : Bool := (roleAt nodes k).any Role.isEmptyBoard

theorem any_isEmptyBoard_iff (role : Option Role) :
    role.any Role.isEmptyBoard = true ↔ ∃ kind, role = some (.emptyBoard kind) := by
  cases role with
  | none => simp
  | some role => cases role <;> simp [Role.isEmptyBoard]

/-- A group without boards is governed by itself, and governs nothing else. -/
theorem any_isEmptyBoard_governor (keep : Bool) (nodes : List Node) (k : Nat) :
    (governor keep nodes k).any Role.isEmptyBoard = isDropped nodes k := by
  rw [Bool.eq_iff_iff, isDropped, any_isEmptyBoard_iff, any_isEmptyBoard_iff]
  exact exists_congr fun kind => governor_eq_emptyBoard_iff keep nodes k kind

/-- The governor of a position is printed exactly if an entry stands there that is
not a group without boards. -/
theorem exists_mem_printedRoles_iff (keep : Bool) (nodes : List Node) (k : Nat) :
    (∃ role ∈ printedRoles, governor keep nodes k = some role) ↔
      k < nodes.length ∧ isDropped nodes k = false := by
  rw [← governor_isSome_iff keep, ← any_isEmptyBoard_governor keep]
  cases governor keep nodes k with
  | none => simp
  | some role => simp [mem_printedRoles_iff]

/-- An ordinary entry behind a group without boards is not taken along by it. -/
theorem mem_ordinaryPositions_of_isDropped {keep : Bool} {nodes : List Node} {k : Nat}
    (hdropped : isDropped nodes k = true) (hrole : roleAt nodes (k + 1) = some .ordinary) :
    k + 1 ∈ ordinaryPositions keep nodes := by
  have hlt : k + 1 < nodes.length := by
    obtain ⟨node, hnode, -⟩ := Option.map_eq_some_iff.mp hrole
    exact (List.getElem?_eq_some_iff.mp hnode).1
  have htaken : isTaken keep nodes (k + 1) = false := by
    rw [← Bool.not_eq_true, isTaken_succ_iff]
    rintro ⟨-, kind, hboard⟩
    rw [isDropped, hboard] at hdropped
    exact absurd hdropped (by simp [Role.isEmptyBoard])
  rw [ordinaryPositions, List.mem_filter, List.mem_range]
  exact ⟨hlt, by simp [hrole, htaken]⟩

/-- **Every entry is printed once**, except that groups without boards are not
printed. -/
theorem printOrder_perm (m : MapLit) :
    m.printOrder.Perm
      ((List.range m.nodes.length).filter fun k => !isDropped m.nodes k) := by
  rw [printOrder_eq, List.perm_ext_iff_of_nodup]
  · intro k
    have hmem := exists_mem_printedRoles_iff (!isInline m.span m.isFile) m.nodes k
    simp only [List.mem_flatMap, List.mem_filter, List.mem_range, beq_iff_eq, Bool.not_eq_true']
    constructor
    · rintro ⟨role, hrole, -, hgovernor⟩
      exact hmem.mp ⟨role, hrole, hgovernor⟩
    · intro h
      obtain ⟨role, hrole, hgovernor⟩ := hmem.mpr h
      exact ⟨role, hrole, h.1, hgovernor⟩
  · refine List.nodup_flatMap.mpr ⟨fun role _ => List.nodup_range.filter _, ?_⟩
    -- a position has one governor, so it is in the list of one role only
    have hroles : printedRoles.Nodup := by decide
    refine List.Pairwise.imp ?_ hroles
    intro role role' hne k hk hk'
    simp only [List.mem_filter, beq_iff_eq] at hk hk'
    exact hne (Option.some.inj (hk.2.symm.trans hk'.2))
  · exact List.nodup_range.filter _

/-! ## The items are in this order -/

/-- The governor of a position is the role of its host. -/
theorem governor_eq (keep : Bool) (nodes : List Node) (k : Nat) :
    governor keep nodes k = roleAt nodes (Item.host Node.role keep nodes k) := by
  rw [governor, Item.host]
  split <;> rfl

theorem hosted_eq (keep : Bool) (nodes : List Node) (role : Role) (k : Nat) :
    Item.hosted Node.role keep nodes (fun node => node.role == role) k =
      (governor keep nodes k == some role) := by
  rw [Item.hosted, governor_eq, roleAt]
  cases nodes[Item.host Node.role keep nodes k]? <;> rfl

/-- **Selecting items by the role of their entry selects the positions whose
governor has that role.** -/
theorem map_some_entries_filter_group (keep : Bool) (all : List Entry) (role : Role) :
    (((Item.group Node.role keep none all).filter fun item =>
        item.entry.node.role == role).flatMap Item.entries).map some =
      ((List.range all.length).filter fun k =>
        governor keep (all.map Entry.node) k == some role).map fun k => all[k]? := by
  have hpieces := Item.map_pieces_filter_group Node.role keep (fun _ _ => .nothing)
    (fun node => node.role == role) all none all 0 List.drop_zero rfl rfl
  have hentries := congrArg (List.map Prod.snd) hpieces
  rw [List.map_map, List.map_map, ← List.range_eq_range',
    List.filter_congr fun k _ => hosted_eq keep (all.map Entry.node) role k] at hentries
  refine Eq.trans ?_ hentries
  rw [List.map_flatMap, List.map_flatMap]
  refine List.flatMap_congr fun item _ => ?_
  have hitem := Placed.map_snd_pieces (Placed.spaced Node.role (fun _ _ => .nothing) item)
  rw [show item.entries = _ from hitem.symm, List.map_map]
  rfl

/-- The items of a map are printed by the role of their entry. -/
theorem ordinaryItems_append_boardItems (items : List Item) :
    ordinaryItems items ++ boardItems items =
      printedRoles.flatMap fun role => items.filter fun item => item.entry.node.role == role := by
  have hkind : ∀ kind : BoardKind,
      (items.filter fun item => item.entry.node.role.kind? == some kind) =
        items.filter fun item => item.entry.node.role == .board kind := by
    intro kind
    refine List.filter_congr fun item _ => ?_
    rw [Bool.eq_iff_iff, beq_iff_eq, beq_iff_eq, Role.kind?_eq_some_iff]
  rw [ordinaryItems, boardItems, BoardKind.gather]
  simp [BoardKind.all, printedRoles, hkind]

/-- The entries of the placed items of a map are the entries at the positions of
the printed order. -/
theorem map_some_entries_arrange (m : MapLit) :
    (((arrange m.isFile (isInline m.span m.isFile) (Node.entries m.nodes)).map
        Placed.item).flatMap Item.entries).map some =
      m.printOrder.map fun k => (Node.entries m.nodes)[k]? := by
  have hrole : ∀ role ∈ printedRoles,
      (((items (isInline m.span m.isFile) (Node.entries m.nodes)).filter fun item =>
          item.entry.node.role == role).flatMap Item.entries).map some =
        ((List.range m.nodes.length).filter fun k =>
          governor (!isInline m.span m.isFile) m.nodes k == some role).map
            fun k => (Node.entries m.nodes)[k]? := by
    intro role _
    have hgroup := map_some_entries_filter_group (!isInline m.span m.isFile)
      (Node.entries m.nodes) role
    have hlength : (Node.entries m.nodes).length = m.nodes.length := by
      rw [Node.entries_eq_map, List.length_map]
    rwa [hlength, Node.map_node_entries] at hgroup
  rw [map_item_arrange, ordinaryItems_append_boardItems, printOrder_eq, List.flatMap_assoc,
    List.map_flatMap, List.map_flatMap]
  exact List.flatMap_congr hrole

/-! ## The document of a map -/

/-- What may stand in front of an entry: the separator of an item, or the space in
front of a comment that stays with the entry before it. -/
def separators : List (List Doc) :=
  [Separator.nothing.docs, Separator.semicolon.docs, Separator.newline.docs,
    Separator.blankLine.docs, [.ofString " "]]

end MapLit

namespace Placed

theorem fst_mem_separators {p : Placed} {piece : List Doc × Entry} (h : piece ∈ p.pieces) :
    piece.1 ∈ MapLit.separators := by
  rw [pieces, List.mem_cons] at h
  rcases h with rfl | h
  · cases p.separator <;> simp [MapLit.separators]
  · obtain ⟨comment, -, rfl⟩ := List.mem_map.mp h
    simp [MapLit.separators]

end Placed

namespace MapLit

/-- The entries of the placed items of a map, each with what stands in front of
it. -/
def pieces (m : MapLit) : List (List Doc × Entry) :=
  (arrange m.isFile (isInline m.span m.isFile) (Node.entries m.nodes)).flatMap Placed.pieces

theorem toDoc_eq_frame_pieces (m : MapLit) :
    m.toDoc = m.frame (m.pieces.flatMap fun piece => piece.1 ++ [piece.2.doc]) := by
  obtain ⟨nodes, span, isFile⟩ := m
  rw [toDoc, docOf, frame, pieces, List.flatMap_assoc]
  rw [List.flatMap_congr fun p _ => Placed.docs_eq_flatMap_pieces p]

theorem map_some_snd_pieces (m : MapLit) :
    m.pieces.map (fun piece => some piece.2) =
      m.printOrder.map fun k => (Node.entries m.nodes)[k]? := by
  rw [← map_some_entries_arrange, pieces, List.flatMap_map, List.map_flatMap, List.map_flatMap]
  refine List.flatMap_congr fun p _ => ?_
  rw [← Placed.map_snd_pieces, List.map_map]
  rfl

/-- The document of an entry that is printed is that of its node. -/
theorem doc_eq_of_mem_pieces {m : MapLit} {piece : List Doc × Entry} (h : piece ∈ m.pieces) :
    piece.2.doc = piece.2.node.toDoc := by
  have hmem : some piece.2 ∈ m.printOrder.map fun k => (Node.entries m.nodes)[k]? := by
    rw [← map_some_snd_pieces]
    exact List.mem_map_of_mem (f := fun piece => some piece.2) h
  obtain ⟨k, -, hk⟩ := List.mem_map.mp hmem
  have hentry := List.mem_of_getElem? hk
  rw [Node.entries_eq_map] at hentry
  obtain ⟨node, -, hnode⟩ := List.mem_map.mp hentry
  rw [← hnode]

/-- **No entry of a map is lost, printed twice or misplaced.**  The document of a
map consists of the documents of its entries in the printed order, with nothing
between them but separators, and all of them stand in the document inside of what
the map puts around them; that order has each position once, except those of the
groups without boards; and what follows a group without boards keeps its place
among the ordinary entries. -/
theorem toDoc_eq_frame_printOrder (m : MapLit) :
    (∃ printed : List (List Doc × Node),
      m.toDoc = m.frame (printed.flatMap fun piece => piece.1 ++ [piece.2.toDoc]) ∧
      m.toDoc.Holds m.frame (printed.flatMap fun piece => piece.1 ++ [piece.2.toDoc]) ∧
      (∀ piece ∈ printed, piece.1 ∈ separators) ∧
      printed.map (fun piece => some piece.2) = m.printOrder.map fun k => m.nodes[k]?) ∧
    m.printOrder.Perm ((List.range m.nodes.length).filter fun k => !isDropped m.nodes k) ∧
    ∀ k, isDropped m.nodes k = true → roleAt m.nodes (k + 1) = some .ordinary →
      k + 1 ∈ ordinaryPositions (!isInline m.span m.isFile) m.nodes := by
  have hdoc : m.toDoc = m.frame ((m.pieces.map fun piece => (piece.1, piece.2.node)).flatMap
      fun piece => piece.1 ++ [piece.2.toDoc]) := by
    rw [toDoc_eq_frame_pieces, List.flatMap_map]
    congr 1
    refine List.flatMap_congr fun piece hpiece => ?_
    rw [doc_eq_of_mem_pieces hpiece]
  refine ⟨⟨m.pieces.map fun piece => (piece.1, piece.2.node), hdoc, ?_, ?_, ?_⟩,
    printOrder_perm m, fun k => mem_ordinaryPositions_of_isDropped⟩
  · rw [hdoc]
    exact m.holds_frame _
  · intro piece hpiece
    obtain ⟨source, hsource, rfl⟩ := List.mem_map.mp hpiece
    obtain ⟨p, -, hp⟩ := List.mem_flatMap.mp hsource
    exact Placed.fst_mem_separators hp
  · have horder := congrArg (List.map (Option.map Entry.node)) (map_some_snd_pieces m)
    rw [List.map_map, List.map_map] at horder
    rw [List.map_map]
    refine horder.trans (List.map_congr_left fun k _ => ?_)
    rw [Function.comp_apply, ← List.getElem?_map, Node.map_node_entries]

/-- A file with a group of boards on its first line and a group without boards on
its second, a comment behind either, and a key. -/
def twoGroups : MapLit :=
  let group (line : Nat) (boards : List Node) : Node :=
    .key ⟨none, some (.ofTexts ["layers"]), [], none, none, none, some (.map (.scope boards)),
      .ofLine line⟩
  let remark (line : Nat) : Node := .comment ⟨.line, "remark", .ofLine line⟩
  let key (name : String) : Node := .key (.ofPath (.ofTexts [name]))
  .file [group 1 [key "x"], remark 1, group 2 [], remark 2, key "a"]

/-- The first comment goes to the end with its group, and the second stays. -/
theorem toDoc_eq_frame_printOrder_twoGroups :
    twoGroups.printOrder = [3, 4, 0, 1] ∧ isDropped twoGroups.nodes 2 = true ∧
      roleAt twoGroups.nodes 3 = some .ordinary ∧
      3 ∈ ordinaryPositions (!isInline twoGroups.span twoGroups.isFile) twoGroups.nodes :=
  ⟨by decide, by decide, by decide,
    (toDoc_eq_frame_printOrder twoGroups).2.2 2 (by decide) (by decide)⟩

end MapLit
end DiagramText
