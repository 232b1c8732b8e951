import DiagramText.Tree.Node

/-!
# Boards

A map can hold further boards of the same diagram, in three groups: `layers`,
`scenarios` and `steps`.  A group is a key whose path is the name of the group
and nothing else, and whose value is a map.  `layers.x: { … }` sets a field of
one layer and `layers: 1` is an ordinary key, so neither is a group.

Boards come last in their map, in the order of the three kinds, and groups of one
kind keep the order in which they were written.  A group with no board in it is
not printed at all.

`gather` is this order for any list whose elements may have a kind.  It takes the
elements with a kind and sorts them by it; it is a sort that keeps the order
within a kind, and an element without a kind is left out.
-/

namespace DiagramText

/-- The three groups of boards. -/
inductive BoardKind where
  | layers
  | scenarios
  | steps
  deriving DecidableEq

namespace BoardKind

/-- The name of a group, as it is written in a key. -/
def name : BoardKind → String
  | layers => "layers"
  | scenarios => "scenarios"
  | steps => "steps"

/-- The groups in the order in which they are printed. -/
def all : List BoardKind := [layers, scenarios, steps]

/-- The group of that name.  Upper case is not recognised. -/
def ofName? (s : String) : Option BoardKind := all.find? fun kind => kind.name == s

/-- The place of a group in the printed order. -/
def rank : BoardKind → Nat
  | layers => 0
  | scenarios => 1
  | steps => 2

/-- Groups compare by their place in the printed order. -/
def compare (a b : BoardKind) : Ordering := Ord.compare a.rank b.rank

theorem mem_all (kind : BoardKind) : kind ∈ all := by
  cases kind <;> decide

/-- The list of the groups goes up in the order of the groups. -/
theorem pairwise_rank_all : all.Pairwise fun a b => a.rank < b.rank := by decide

/-- A group is found by its name and by no other text. -/
theorem ofName?_eq_some_iff (s : String) (kind : BoardKind) :
    ofName? s = some kind ↔ s = kind.name := by
  constructor
  · intro h
    have hname := List.find?_some h
    exact (beq_iff_eq.mp hname).symm
  · rintro rfl
    cases kind <;> rfl

variable {α : Type}

/-- The elements of a list that have a kind, by kind, and within a kind in their
order. -/
def gather (kind? : α → Option BoardKind) (xs : List α) : List α :=
  all.flatMap fun kind => xs.filter fun x => kind? x == some kind

@[simp] theorem gather_nil (kind? : α → Option BoardKind) : gather kind? [] = [] := rfl

/-- An element is gathered exactly when it is in the list and has a kind. -/
theorem mem_gather (kind? : α → Option BoardKind) (xs : List α) (x : α) :
    x ∈ gather kind? xs ↔ x ∈ xs ∧ (kind? x).isSome = true := by
  unfold gather
  simp only [List.mem_flatMap, List.mem_filter, beq_iff_eq]
  constructor
  · rintro ⟨kind, -, hx, hkind⟩
    exact ⟨hx, by simp [hkind]⟩
  · rintro ⟨hx, hsome⟩
    obtain ⟨kind, hkind⟩ := Option.isSome_iff_exists.mp hsome
    exact ⟨kind, mem_all kind, hx, hkind⟩

end BoardKind

/-- The part that an entry of a map has in the placement of boards. -/
inductive Role where
  /-- Printed where it stands. -/
  | ordinary
  /-- A group of boards, printed after the ordinary entries. -/
  | board (kind : BoardKind)
  /-- A group without boards, not printed. -/
  | emptyBoard (kind : BoardKind)
  deriving DecidableEq

namespace Role

/-- The kind of the boards that a role prints. -/
def kind? : Role → Option BoardKind
  | board kind => some kind
  | _ => none

/-- Whether a role is that of a group without boards. -/
def isEmptyBoard : Role → Bool
  | emptyBoard _ => true
  | _ => false

@[simp] theorem kind?_eq_some_iff (r : Role) (kind : BoardKind) :
    r.kind? = some kind ↔ r = board kind := by
  cases r <;> simp [kind?]

end Role

/-- The group that a key names: the key has no edges, and its path is the name of
the group. -/
def Key.boardKind? (k : Key) : Option BoardKind :=
  if k.edges.isEmpty then (k.path.bind KeyPath.single?).bind BoardKind.ofName? else none

/-- The part of a key in the placement of boards. -/
def Key.role (k : Key) : Role :=
  match k.boardKind?, k.value.bind Value.map? with
  | some kind, some m => if m.nodes.isEmpty then .emptyBoard kind else .board kind
  | _, _ => .ordinary

/-- The part of an entry in the placement of boards. -/
def Node.role : Node → Role
  | .key k => k.role
  | _ => .ordinary

/-- A key is a group without boards exactly when it names one and its value is a
map without entries. -/
theorem Key.role_eq_emptyBoard_iff (k : Key) (kind : BoardKind) :
    k.role = .emptyBoard kind ↔
      k.boardKind? = some kind ∧ ∃ m, k.value = some (.map m) ∧ m.nodes = [] := by
  unfold Key.role
  cases hkind : k.boardKind? with
  | none => simp
  | some named =>
      cases hvalue : k.value with
      | none => simp
      | some v =>
          cases v with
          | map m =>
              by_cases hm : m.nodes = []
              · simp [hm]
              · simp [hm]
          | _ => simp [Value.map?]

end DiagramText
