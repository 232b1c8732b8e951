import DiagramText.Layout.Entries
import Mathlib.Data.List.Basic

/-!
# Boards are sorted by their kind

The layout of a map takes its groups of boards all at once, kind by kind (`BoardKind.gather`).
They can also be set aside one at a time, while the other entries are laid out.  An `Organizer`
does that.  It is offered one entry after the other, answers each offer on the spot, and keeps the
groups that it sets aside in three lists, one for each kind.  In the end it hands them over in an
order that is written out by hand: the first list, then the second, then the third.

Three things could go wrong in such a collector.  An answer could depend on what was offered
before; a group could be put in the list of another kind; and the order that is written out could
be another one than that in which the kinds are declared.  This file shows that none of this
happens, whatever is offered and however often.

## One offer, and many

What an offer does to the list of a kind is said once (`Organizer.group_place`): the list grows at
its end by the group that is offered, if it is of that kind.  So after any number of offers each
list has the groups of its kind in the order of the offers (`Organizer.group_placeAll`).  This is
what the layout of a map takes kind by kind, and a map thus places its items as an organizer does
(`MapLit.items_eq_placeAll`).

## Why this is a sort

A list is a *sort* of another by kind if it goes up in the order of the kinds and has the same
elements of each kind in the same order (`BoardKind.IsSortOf`).  There is only one such list
(`BoardKind.IsSortOf.unique`).  A row of equal elements is no exception, since nothing is said of
single elements but only of the lists that a kind selects.  Taking the elements kind by kind gives
this list, and so does every sort that leaves elements of one kind in their order; merge sort is
such a sort.  Hence the two agree (`BoardKind.gather_eq_mergeSort`).
-/

namespace DiagramText

/-! ## Sorts by kind -/

deriving instance Ord for BoardKind

namespace BoardKind

/-- The printed order of the groups is the order in which they are declared. -/
theorem compare_eq_ord (a b : BoardKind) : a.compare b = Ord.compare a b := by
  cases a <;> cases b <;> rfl

theorem isLE_compare_iff (a b : BoardKind) : (Ord.compare a b).isLE = true ↔ a.rank ≤ b.rank := by
  rw [← compare_eq_ord]
  exact Nat.isLE_compare

theorem eq_of_rank_eq {a b : BoardKind} (h : a.rank = b.rank) : a = b := by
  revert h
  cases a <;> cases b <;> decide

variable {α : Type} {kind : α → BoardKind} {xs ys zs : List α}

/-- `ys` has the elements of `xs` sorted by kind, and those of one kind in the order that they
have in `xs`. -/
structure IsSortOf (kind : α → BoardKind) (xs ys : List α) : Prop where
  /-- The kinds go up. -/
  sorted : ys.Pairwise fun a b => (kind a).rank ≤ (kind b).rank
  /-- The elements of a kind are the same, and in the same order. -/
  stable : ∀ k, (ys.filter fun y => kind y == k) = xs.filter fun x => kind x == k

/-- An element of a list is among those of its kind in every list that has the same elements of
each kind. -/
theorem mem_of_filter_eq {x : α} (hx : x ∈ ys)
    (h : ∀ k, (ys.filter fun y => kind y == k) = zs.filter fun z => kind z == k) : x ∈ zs := by
  have hfilter : x ∈ ys.filter fun y => kind y == kind x :=
    List.mem_filter.mpr ⟨hx, beq_self_eq_true _⟩
  rw [h] at hfilter
  exact (List.mem_filter.mp hfilter).1

/-- The first element of a list that goes up has the least kind. -/
theorem rank_le_of_mem_cons {y x : α}
    (hsorted : (y :: ys).Pairwise fun a b => (kind a).rank ≤ (kind b).rank) (hx : x ∈ y :: ys) :
    (kind y).rank ≤ (kind x).rank := by
  rcases List.mem_cons.mp hx with rfl | hmem
  · exact Nat.le_refl _
  · exact (List.pairwise_cons.mp hsorted).1 x hmem

/-- A list that goes up is determined by the elements of each kind. -/
theorem eq_of_filter_eq (hys : ys.Pairwise fun a b => (kind a).rank ≤ (kind b).rank)
    (hzs : zs.Pairwise fun a b => (kind a).rank ≤ (kind b).rank)
    (h : ∀ k, (ys.filter fun y => kind y == k) = zs.filter fun z => kind z == k) : ys = zs := by
  induction ys generalizing zs with
  | nil =>
      refine (List.eq_nil_iff_forall_not_mem.mpr fun z hz => ?_).symm
      exact List.not_mem_nil (mem_of_filter_eq hz fun k => (h k).symm)
  | cons y ys ih =>
      cases zs with
      | nil => exact absurd (mem_of_filter_eq List.mem_cons_self h) List.not_mem_nil
      | cons z zs =>
          -- each of the two first elements occurs in the other list, so neither kind is less
          have hy : y ∈ z :: zs := mem_of_filter_eq List.mem_cons_self h
          have hz : z ∈ y :: ys := mem_of_filter_eq List.mem_cons_self fun k => (h k).symm
          have hkind : kind y = kind z :=
            eq_of_rank_eq
              (Nat.le_antisymm (rank_le_of_mem_cons hys hz) (rank_le_of_mem_cons hzs hy))
          have hfirst := h (kind y)
          rw [List.filter_cons, List.filter_cons, if_pos (beq_self_eq_true _),
            if_pos (beq_iff_eq.mpr hkind.symm)] at hfirst
          obtain rfl := (List.cons.inj hfirst).1
          rw [ih (List.pairwise_cons.mp hys).2 (List.pairwise_cons.mp hzs).2 fun k => ?_]
          have hrest := h k
          rw [List.filter_cons, List.filter_cons] at hrest
          split at hrest
          · exact (List.cons.inj hrest).2
          · exact hrest

/-- A list has only one sort by kind. -/
theorem IsSortOf.unique (hys : IsSortOf kind xs ys) (hzs : IsSortOf kind xs zs) : ys = zs :=
  eq_of_filter_eq hys.sorted hzs.sorted fun k => (hys.stable k).trans (hzs.stable k).symm

/-- Among the elements of a kind there are none of another. -/
theorem filter_filter_kind (kind : α → BoardKind) (xs : List α) (k k' : BoardKind) :
    ((xs.filter fun x => some (kind x) == some k').filter fun x => kind x == k) =
      if k' = k then xs.filter fun x => kind x == k else [] := by
  rw [List.filter_filter]
  split
  · next hk =>
      refine List.filter_congr fun x _ => ?_
      rw [hk, Option.some_beq_some, Bool.and_self]
  · next hk =>
      refine List.filter_eq_nil_iff.mpr fun x _ hx => hk ?_
      simp only [Bool.and_eq_true, beq_iff_eq, Option.some.injEq] at hx
      exact hx.2.symm.trans hx.1

/-- Taking the elements kind by kind is a sort. -/
theorem isSortOf_gather (kind : α → BoardKind) (xs : List α) :
    IsSortOf kind xs (gather (fun x => some (kind x)) xs) where
  sorted := by
    have hkind : ∀ {k x}, x ∈ (xs.filter fun x => some (kind x) == some k) → kind x = k :=
      fun hx => Option.some.inj (beq_iff_eq.mp (List.mem_filter.mp hx).2)
    refine List.pairwise_flatMap.mpr ⟨fun k _ => ?_, pairwise_rank_all.imp fun hlt a ha b hb => ?_⟩
    · refine List.pairwise_of_forall_mem_list fun a ha b hb => ?_
      exact Nat.le_of_eq (by rw [hkind ha, hkind hb])
    · rw [hkind ha, hkind hb]
      exact Nat.le_of_lt hlt
  stable := by
    intro k
    rw [gather, List.filter_flatMap, List.flatMap_congr fun k' _ => filter_filter_kind kind xs k k']
    cases k <;> simp [all]

/-- Merge sort is a sort. -/
theorem isSortOf_mergeSort (kind : α → BoardKind) (xs : List α) :
    IsSortOf kind xs (xs.mergeSort fun a b => (Ord.compare (kind a) (kind b)).isLE) := by
  have htrans : ∀ a b c : α, (Ord.compare (kind a) (kind b)).isLE = true →
      (Ord.compare (kind b) (kind c)).isLE = true → (Ord.compare (kind a) (kind c)).isLE = true := by
    intro a b c hab hbc
    rw [isLE_compare_iff] at *
    exact Nat.le_trans hab hbc
  have htotal : ∀ a b : α,
      ((Ord.compare (kind a) (kind b)).isLE || (Ord.compare (kind b) (kind a)).isLE) = true := by
    intro a b
    rw [Bool.or_eq_true, isLE_compare_iff, isLE_compare_iff]
    exact Nat.le_total _ _
  refine ⟨?_, fun k => ?_⟩
  · exact (List.pairwise_mergeSort htrans htotal xs).imp fun h => (isLE_compare_iff _ _).mp h
  · -- the elements of one kind are in order already, so they stay in their order
    have hequal : (xs.filter fun x => kind x == k).Pairwise fun a b =>
        (Ord.compare (kind a) (kind b)).isLE = true := by
      refine List.pairwise_of_forall_mem_list fun a ha b hb => (isLE_compare_iff _ _).mpr ?_
      exact Nat.le_of_eq (congrArg rank
        ((beq_iff_eq.mp (List.mem_filter.mp ha).2).trans
          (beq_iff_eq.mp (List.mem_filter.mp hb).2).symm))
    have hsublist := (List.sublist_mergeSort htrans htotal hequal List.filter_sublist).filter
      fun x => kind x == k
    rw [List.filter_filter, List.filter_congr fun x _ => Bool.and_self (kind x == k)] at hsublist
    exact (hsublist.eq_of_length ((List.mergeSort_perm xs _).filter _).length_eq.symm).symm

/-- **Taking the elements kind by kind is the stable sort by kind.** -/
theorem gather_eq_mergeSort (kind : α → BoardKind) (xs : List α) :
    gather (fun x => some (kind x)) xs =
      xs.mergeSort fun a b => (Ord.compare (kind a) (kind b)).isLE :=
  (isSortOf_gather kind xs).unique (isSortOf_mergeSort kind xs)

/-- What has no kind can be left out before the elements are taken kind by kind. -/
theorem filterMap_gather {β : Type} (f : β → Option (BoardKind × α)) (xs : List β) :
    (gather (fun x => (f x).map Prod.fst) xs).filterMap f =
      gather (fun b => some b.1) (xs.filterMap f) := by
  rw [gather, gather, List.filterMap_flatMap]
  refine List.flatMap_congr fun k _ => ?_
  rw [List.filterMap_filter, List.filter_filterMap]
  refine List.filterMap_congr fun x _ => ?_
  cases f x with
  | none => simp
  | some b => simp [Option.filter]

/-- Elements that are made of others are taken kind by kind as those are. -/
theorem gather_map {β : Type} (kind? : α → Option BoardKind) (f : β → α) (xs : List β) :
    gather kind? (xs.map f) = (gather (fun x => kind? (f x)) xs).map f := by
  rw [gather, gather, List.map_flatMap]
  exact List.flatMap_congr fun k _ => List.filter_map

end BoardKind

/-! ## The organizer -/

/-- What becomes of an entry that is offered to an organizer. -/
inductive Placement where
  /-- It is printed where it stands. -/
  | inPlace
  /-- It is set aside, with what stands behind it on its line. -/
  | moved
  /-- It is not printed. -/
  | dropped
  deriving DecidableEq

/-- What becomes of an entry that has some part in the placement of boards. -/
def Role.placement : Role → Placement
  | ordinary => .inPlace
  | board _ => .moved
  | emptyBoard _ => .dropped

/-- A group of boards that was set aside. -/
structure BoardEntry where
  key : Key
  /-- What stood behind the group on its last line. -/
  trailing : Option Node

/-- An entry that is offered to an organizer. -/
structure Offer where
  node : Node
  /-- What stands behind the entry on its last line. -/
  trailing : Option Node

/-- The group of boards that is offered, and its kind. -/
def Offer.board? (offer : Offer) : Option (BoardKind × BoardEntry) :=
  match offer.node with
  | .key k => k.role.kind?.map fun kind => (kind, ⟨k, offer.trailing⟩)
  | _ => none

/-- The groups of boards that were set aside, by kind. -/
structure Organizer where
  layers : List BoardEntry
  scenarios : List BoardEntry
  steps : List BoardEntry

namespace Organizer

/-- An organizer that nothing was offered to. -/
def new : Organizer := ⟨[], [], []⟩

/-- The groups of one kind. -/
def group (o : Organizer) : BoardKind → List BoardEntry
  | .layers => o.layers
  | .scenarios => o.scenarios
  | .steps => o.steps

/-- Sets a group aside, behind those of its kind. -/
def push (o : Organizer) (kind : BoardKind) (entry : BoardEntry) : Organizer :=
  match kind with
  | .layers => { o with layers := o.layers ++ [entry] }
  | .scenarios => { o with scenarios := o.scenarios ++ [entry] }
  | .steps => { o with steps := o.steps ++ [entry] }

/-- Offers an entry.  The answer says what becomes of it. -/
def place (o : Organizer) (offer : Offer) : Placement × Organizer :=
  match offer.node with
  | .key k =>
      match k.role with
      | .ordinary => (.inPlace, o)
      | .board kind => (.moved, o.push kind ⟨k, offer.trailing⟩)
      | .emptyBoard _ => (.dropped, o)
  | _ => (.inPlace, o)

/-- Offers entries, one after the other. -/
def placeAll (o : Organizer) : List Offer → List Placement × Organizer
  | [] => ([], o)
  | offer :: rest =>
      let first := o.place offer
      let others := first.2.placeAll rest
      (first.1 :: others.1, others.2)

/-- The groups that were set aside, in the order in which they are printed. -/
def ordered (o : Organizer) : List BoardEntry := o.layers ++ o.scenarios ++ o.steps

variable (o : Organizer) (offer : Offer) (offers : List Offer) (k : BoardKind)

@[simp] theorem group_new : new.group k = [] := by
  cases k <;> rfl

/-- A group that is set aside is found in the list of its kind, and in no other. -/
theorem group_push (kind : BoardKind) (entry : BoardEntry) :
    (o.push kind entry).group k = o.group k ++ if kind == k then [entry] else [] := by
  cases kind <;> cases k <;> simp [push, group]

/-- The order that is written out is the order of the kinds. -/
theorem ordered_eq_flatMap_group : o.ordered = BoardKind.all.flatMap o.group := by
  simp [ordered, BoardKind.all, group]

end Organizer

/-! ### One offer -/

/-- The kind of the group that is offered is the kind of the boards that the entry prints. -/
theorem Offer.map_fst_board? (offer : Offer) :
    offer.board?.map Prod.fst = offer.node.role.kind? := by
  obtain ⟨node, trailing⟩ := offer
  cases node with
  | key k => cases hrole : k.role <;> simp [board?, Node.role, hrole, Role.kind?]
  | _ => rfl

/-- An entry is a group of boards exactly if it is to be set aside. -/
theorem Offer.isSome_board? (offer : Offer) :
    offer.board?.isSome = (offer.node.role.placement == .moved) := by
  rw [← Option.isSome_map (f := Prod.fst), map_fst_board?]
  cases offer.node.role <;> rfl

namespace Organizer

variable (o : Organizer) (offer : Offer) (offers : List Offer) (k : BoardKind)

/-- What an offer can do: the answer depends on the entry alone, and the organizer changes by the
group that is offered, if there is one. -/
theorem place_eq :
    o.place offer =
      (offer.node.role.placement, offer.board?.elim o fun b => o.push b.1 b.2) := by
  obtain ⟨node, trailing⟩ := offer
  cases node with
  | key content =>
      cases hrole : content.role <;>
        simp [place, Offer.board?, Node.role, hrole, Role.kind?, Role.placement]
  | _ => rfl

/-- An offer adds the group that is offered to the list of its kind, and nothing else. -/
theorem group_place :
    (o.place offer).2.group k =
      o.group k ++ (offer.board?.toList.filter fun b => b.1 == k).map Prod.snd := by
  rw [place_eq]
  cases offer.board? with
  | none => simp
  | some b =>
      rw [Option.elim_some, group_push, Option.toList_some, List.filter_singleton]
      cases b.1 == k <;> rfl

/-! ### Many offers -/

/-- The answers depend on the entries alone, each on its own. -/
theorem fst_placeAll :
    (o.placeAll offers).1 = offers.map fun offer => offer.node.role.placement := by
  induction offers generalizing o with
  | nil => rfl
  | cons offer rest ih => rw [placeAll, ih, List.map_cons, place_eq]

/-- Offers add the groups of each kind to the list of that kind, in the order of the offers. -/
theorem group_placeAll :
    (o.placeAll offers).2.group k =
      o.group k ++ ((offers.filterMap Offer.board?).filter fun b => b.1 == k).map Prod.snd := by
  induction offers generalizing o with
  | nil => simp [placeAll]
  | cons offer rest ih =>
      rw [placeAll, ih, group_place, List.filterMap_eq_flatMap_toList,
        List.filterMap_eq_flatMap_toList, List.flatMap_cons, List.filter_append, List.map_append,
        List.append_assoc]

/-- What an organizer has set aside are the groups that were offered, kind by kind. -/
theorem ordered_placeAll_new :
    (new.placeAll offers).2.ordered =
      (BoardKind.gather (fun b => some b.1) (offers.filterMap Offer.board?)).map Prod.snd := by
  rw [ordered_eq_flatMap_group, BoardKind.gather, List.map_flatMap]
  refine List.flatMap_congr fun k _ => ?_
  rw [group_placeAll, group_new, List.nil_append]
  rfl

/-- What an organizer has set aside are the offers that have a kind, kind by kind. -/
theorem ordered_placeAll_new_eq_gather :
    (new.placeAll offers).2.ordered =
      (BoardKind.gather (fun offer => offer.node.role.kind?) offers).filterMap fun offer =>
        offer.board?.map Prod.snd := by
  have hkinds : (fun offer : Offer => offer.node.role.kind?) =
      fun offer => offer.board?.map Prod.fst :=
    funext fun offer => offer.map_fst_board?.symm
  rw [ordered_placeAll_new, hkinds, ← List.map_filterMap, BoardKind.filterMap_gather]

/-- **An organizer sorts boards by kind.**  Whatever was offered to it before, it answers each
offer by the part that the entry has in the placement of boards: ordinary entries stay, groups of
boards are set aside, and groups without boards are dropped.  The groups that it hands over in the
end are those that were offered, each with what stood behind it, in the order in which a stable
sort by kind puts them; there is one for each offer that was answered by setting a group aside;
and they are the ones that are found by taking the offers kind by kind. -/
theorem placeAll_eq_mergeSort :
    (∀ o : Organizer,
      (o.placeAll offers).1 = offers.map fun offer => offer.node.role.placement) ∧
    (new.placeAll offers).2.ordered =
      ((offers.filterMap Offer.board?).mergeSort fun a b => (compare a.1 b.1).isLE).map Prod.snd ∧
    (new.placeAll offers).2.ordered.length = (new.placeAll offers).1.count .moved ∧
    (new.placeAll offers).2.ordered =
      (BoardKind.gather (fun offer => offer.node.role.kind?) offers).filterMap fun offer =>
        offer.board?.map Prod.snd := by
  have hordered : (new.placeAll offers).2.ordered =
      ((offers.filterMap Offer.board?).mergeSort fun a b =>
        (compare a.1 b.1).isLE).map Prod.snd := by
    rw [ordered_placeAll_new, BoardKind.gather_eq_mergeSort]
  refine ⟨fun o => fst_placeAll o offers, hordered, ?_, ordered_placeAll_new_eq_gather offers⟩
  rw [hordered, List.length_map, List.length_mergeSort, List.length_filterMap_eq_countP,
    fst_placeAll, List.count, List.countP_map]
  refine List.countP_congr fun offer _ => ?_
  rw [Offer.isSome_board?, Function.comp_apply]

end Organizer

/-! ## The boards of a map -/

/-- An item, as it is offered to an organizer. -/
def Item.offer (item : Item) : Offer := ⟨item.entry.node, item.trailing.map Entry.node⟩

/-- **A map places its items as an organizer does.**  The ordinary items are those that stay in
their place, whatever was offered before, and the groups of boards come in the order in which an
organizer hands them over. -/
theorem MapLit.items_eq_placeAll (items : List Item) :
    (∀ o : Organizer,
      ordinaryItems items = items.filter fun item => (o.place item.offer).1 == .inPlace) ∧
    (boardItems items).filterMap (fun item => item.offer.board?.map Prod.snd) =
      (Organizer.new.placeAll (items.map Item.offer)).2.ordered := by
  constructor
  · intro o
    refine List.filter_congr fun item _ => ?_
    rw [Organizer.place_eq, Item.offer]
    cases item.entry.node.role <;> rfl
  · rw [Organizer.ordered_placeAll_new_eq_gather, BoardKind.gather_map, List.filterMap_map]
    rfl

end DiagramText
