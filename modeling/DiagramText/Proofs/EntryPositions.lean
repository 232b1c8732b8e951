import DiagramText.Layout.Node
import Mathlib.Data.List.Basic

/-!
# Entries by position

The layout of a row of entries goes from left to right.  It takes an entry, looks at the
entry behind it, and makes an item of the one or of both; it carries along the line on which
the last entry ended.  What can be said about the result is better said without that walk: an
entry has a *position* in the row, and everything that the layout decides about it can be
read off the entries around its position.

* `isAttached`: the entry at a position is a comment that stays on the line of the entry
  before it.  Whether it does depends on that entry, which may itself be a comment that stays
  with another one.
* `host`: the position of the entry on whose line the entry at a position stands, which is
  the position before if the entry is attached, and the position itself otherwise.
* `hasGap`: the source has a blank line in front of the entry at a position.

`map_pieces_filter_group` is the link between the two views.  It says, for the items whose
entry passes a test, which entries they print and what stands in front of each: they print
the positions whose host passes the test, in their order.  The induction follows the
grouping, and what it carries is that the walk never stands in front of an attached comment
and knows the last line of the entry before it.

The roles of entries are a parameter, because an array has no groups of boards: there every
entry is an ordinary one.
-/

namespace DiagramText

/-- The entries of a placed item, each with what stands in front of it. -/
def Placed.pieces (p : Placed) : List (List Doc × Entry) :=
  (p.separator.docs, p.item.entry) ::
    p.item.trailing.toList.map fun comment => ([.ofString " "], comment)

namespace Placed

/-- A placed item prints its entries, each behind its separator. -/
theorem docs_eq_flatMap_pieces (p : Placed) :
    p.docs = p.pieces.flatMap fun piece => piece.1 ++ [piece.2.doc] := by
  rw [docs, Item.docs, pieces]
  cases p.item.trailing <;> simp

theorem map_snd_pieces (p : Placed) : p.pieces.map Prod.snd = p.item.entries := by
  rw [pieces, Item.entries]
  cases p.item.trailing <;> rfl

/-- An item behind a separator that is chosen by the role of its entry and by the blank line
of the source. -/
def spaced (role : Node → Role) (sep : Role → Bool → Separator) (item : Item) : Placed :=
  ⟨sep (role item.entry.node) item.afterGap, item⟩

end Placed

namespace Item

/-! ## Positions -/

section Positions

variable (role : Node → Role) (keep : Bool) (nodes : List Node)

/-- Whether the entry at a position is a comment that stays on the line of the entry before
it: it starts on the last line of that entry, which is neither a group without boards nor
itself a comment that stays with another entry.  `keep` says that the row is laid out over
several lines. -/
def isAttached : Nat → Bool
  | 0 => false
  | k + 1 =>
      match nodes[k]?, nodes[k + 1]? with
      | some before, some node =>
          keep && node.isComment && node.firstLine == before.lastLine &&
            !(role before).isEmptyBoard && !isAttached k
      | _, _ => false

/-- The position of the entry on whose line the entry at a position stands. -/
def host (k : Nat) : Nat := if isAttached role keep nodes k then k - 1 else k

/-- Whether the entry on whose line the entry at a position stands passes a test. -/
def hosted (p : Node → Bool) (k : Nat) : Bool := (nodes[host role keep nodes k]?).any p

/-- The line on which the entry before a position ends. -/
def lineBefore : Nat → Option Nat
  | 0 => none
  | k + 1 => nodes[k]?.map Node.lastLine

/-- Whether the source has a blank line between the entry at a position and the entry before
it. -/
def hasGap : Nat → Bool
  | 0 => false
  | k + 1 =>
      match nodes[k]?, nodes[k + 1]? with
      | some before, some node => 1 < node.firstLine - before.lastLine
      | _, _ => false

/-- What stands in front of the entry at a position: a space if it is attached, and otherwise
the separator for its role and for the blank line of the source. -/
def lead (sep : Role → Bool → Separator) (k : Nat) : List Doc :=
  if isAttached role keep nodes k then [.ofString " "]
  else match nodes[k]? with
    | none => []
    | some node => (sep (role node) (hasGap nodes k)).docs

end Positions

variable {role : Node → Role} {keep : Bool} {nodes : List Node} {k : Nat}

/-- What it means that a comment stays with the entry before it. -/
theorem isAttached_succ_iff :
    isAttached role keep nodes (k + 1) = true ↔
      ∃ before node, nodes[k]? = some before ∧ nodes[k + 1]? = some node ∧ keep = true ∧
        node.isComment = true ∧ node.firstLine = before.lastLine ∧
        (role before).isEmptyBoard = false ∧ isAttached role keep nodes k = false := by
  rw [isAttached]
  cases hbefore : nodes[k]? with
  | none => simp
  | some before =>
      cases hnode : nodes[k + 1]? with
      | none => simp
      | some node => simp [and_assoc]

/-- Nothing is attached to an attached comment. -/
theorem isAttached_succ_of_isAttached (h : isAttached role keep nodes k = true) :
    isAttached role keep nodes (k + 1) = false := by
  rw [isAttached, h]
  split <;> simp

/-- An entry that is attached to none is its own host. -/
theorem hosted_of_not_isAttached {node : Node} (h : isAttached role keep nodes k = false)
    (hnode : nodes[k]? = some node) (p : Node → Bool) : hosted role keep nodes p k = p node := by
  rw [hosted, host, h, if_neg Bool.false_ne_true, hnode, Option.any_some]

/-- The host of an attached comment is the entry before it. -/
theorem hosted_of_isAttached {node : Node} (h : isAttached role keep nodes (k + 1) = true)
    (hnode : nodes[k]? = some node) (p : Node → Bool) :
    hosted role keep nodes p (k + 1) = p node := by
  rw [hosted, host, if_pos h, Nat.add_sub_cancel, hnode, Option.any_some]

theorem lead_of_isAttached (h : isAttached role keep nodes k = true)
    (sep : Role → Bool → Separator) : lead role keep nodes sep k = [.ofString " "] := by
  rw [lead, if_pos h]

theorem lead_of_not_isAttached {node : Node} (h : isAttached role keep nodes k = false)
    (hnode : nodes[k]? = some node) (sep : Role → Bool → Separator) :
    lead role keep nodes sep k = (sep (role node) (hasGap nodes k)).docs := by
  rw [lead, h, if_neg Bool.false_ne_true, hnode]

/-! ## Along the grouping -/

section Grouping

variable {all : List Entry} {e next : Entry} {rest : List Entry}

/-- The entry at a position, as the head of what stands from there on. -/
theorem getElem?_of_drop (h : all.drop k = e :: rest) :
    all[k]? = some e ∧ all.drop (k + 1) = rest := by
  constructor
  · have hhead := congrArg List.head? h
    rwa [List.head?_drop, List.head?_cons] at hhead
  · rw [← List.drop_drop, h]
    rfl

theorem getElem?_node_of_drop (h : all.drop k = e :: rest) :
    (all.map Entry.node)[k]? = some e.node := by
  rw [List.getElem?_map, (getElem?_of_drop h).1, Option.map_some]

/-- Whether the entry after another is a comment that stays with it. -/
theorem isAttached_succ_of_drop (hdrop : all.drop k = e :: next :: rest)
    (hfree : isAttached role keep (all.map Entry.node) k = false) :
    isAttached role keep (all.map Entry.node) (k + 1) = (keep && attaches role e next) := by
  have hnext := getElem?_node_of_drop (getElem?_of_drop hdrop).2
  rw [isAttached, getElem?_node_of_drop hdrop, hnext, hfree]
  simp [attaches, Bool.and_assoc]

/-- The blank line that the walk sees is the one in the source. -/
theorem isAfterGap_of_drop (hdrop : all.drop k = e :: rest) :
    isAfterGap (lineBefore (all.map Entry.node) k) e = hasGap (all.map Entry.node) k := by
  have hnode := getElem?_node_of_drop hdrop
  cases k with
  | zero => rfl
  | succ k =>
      have hlt : k < (all.map Entry.node).length := by
        have hlt' := (List.getElem?_eq_some_iff.mp hnode).1
        omega
      rw [lineBefore, hasGap, hnode, List.getElem?_eq_getElem hlt]
      rfl

theorem lineBefore_of_drop (hdrop : all.drop k = e :: rest) :
    some e.node.lastLine = lineBefore (all.map Entry.node) (k + 1) := by
  rw [lineBefore, getElem?_node_of_drop hdrop, Option.map_some]

/-- **Items print the positions whose host is their entry.**  The items whose entry passes a
test print the entries at the positions whose host passes it, each behind its lead. -/
theorem map_pieces_filter_group (role : Node → Role) (keep : Bool)
    (sep : Role → Bool → Separator) (p : Node → Bool) (all : List Entry) (last : Option Nat)
    (es : List Entry) (k : Nat) (hdrop : all.drop k = es)
    (hfree : isAttached role keep (all.map Entry.node) k = false)
    (hlast : last = lineBefore (all.map Entry.node) k) :
    (((group role keep last es).filter fun item => p item.entry.node).flatMap fun item =>
        (Placed.spaced role sep item).pieces).map (fun piece => (piece.1, some piece.2)) =
      ((List.range' k es.length).filter (hosted role keep (all.map Entry.node) p)).map fun j =>
        (lead role keep (all.map Entry.node) sep j, all[j]?) := by
  fun_induction group role keep last es generalizing k with
  | case1 last => rfl
  | case2 last e =>
      have hk := (getElem?_of_drop hdrop).1
      have hnode := getElem?_node_of_drop hdrop
      have hhosted := hosted_of_not_isAttached hfree hnode p
      have hlead := lead_of_not_isAttached hfree hnode sep
      rw [hlast, isAfterGap_of_drop hdrop, List.length_singleton, List.range'_one,
        List.filter_singleton, List.filter_singleton, hhosted]
      cases p e.node with
      | false => rfl
      | true => simp [hk, hlead, Placed.spaced, Placed.pieces]
  | case3 last e next rest hattach ih =>
      -- the item takes two positions, and its entry is the host of both
      obtain ⟨hk, hdrop'⟩ := getElem?_of_drop hdrop
      obtain ⟨hnext, hrest⟩ := getElem?_of_drop hdrop'
      have hnode := getElem?_node_of_drop hdrop
      have hattached : isAttached role keep (all.map Entry.node) (k + 1) = true := by
        rw [isAttached_succ_of_drop hdrop hfree, hattach]
      have hhosted := hosted_of_not_isAttached hfree hnode p
      have hhosted' := hosted_of_isAttached hattached hnode p
      have hlead := lead_of_not_isAttached hfree hnode sep
      have hlead' := lead_of_isAttached hattached sep
      have hothers := ih (k + 1 + 1) hrest (isAttached_succ_of_isAttached hattached)
        (lineBefore_of_drop hdrop')
      rw [hlast, isAfterGap_of_drop hdrop, List.length_cons, List.length_cons, List.range'_succ,
        List.range'_succ, List.filter_cons, List.filter_cons, List.filter_cons, hhosted, hhosted']
      cases p e.node with
      | false => exact hothers
      | true =>
          rw [if_pos rfl, if_pos rfl, if_pos rfl, List.flatMap_cons, List.map_append, hothers,
            List.map_cons, List.map_cons, hk, hnext, hlead, hlead']
          rfl
  | case4 last e next rest hattach ih =>
      obtain ⟨hk, hdrop'⟩ := getElem?_of_drop hdrop
      have hnode := getElem?_node_of_drop hdrop
      have hfree' : isAttached role keep (all.map Entry.node) (k + 1) = false := by
        rw [isAttached_succ_of_drop hdrop hfree]
        simpa using hattach
      have hhosted := hosted_of_not_isAttached hfree hnode p
      have hlead := lead_of_not_isAttached hfree hnode sep
      have hothers := ih (k + 1) hdrop' hfree' (lineBefore_of_drop hdrop)
      rw [hlast, isAfterGap_of_drop hdrop, List.length_cons, List.range'_succ, List.filter_cons,
        List.filter_cons, hhosted]
      cases p e.node with
      | false => exact hothers
      | true =>
          rw [if_pos rfl, if_pos rfl, List.flatMap_cons, List.map_append, hothers, List.map_cons,
            hk, hlead]
          rfl

end Grouping

end Item
end DiagramText
