import DiagramText.Board
import DiagramText.Doc.Basic

/-!
# The layout of entries

The entries of a map and the elements of an array are laid out in the same way:
either all on one line with semicolons between, or each on a line of its own.
Over several lines two traits of the source are kept.  A comment that followed an
entry on the entry's last line stays there, and where the source had a blank line
between two entries there is one blank line.

The work is done in three steps, and each has a type of its own.

1. **Entries become items** (`Item.group`).  An item is an entry together with the
   comment that stays on its line, and it remembers whether the source had a blank
   line in front of it.  Blank lines are measured from the entry before it in the
   source, whatever becomes of that entry.
2. **Items are put in order.**  In a map, groups of boards go to the end and empty
   groups drop out.  A group takes its comment with it.  An empty group has no
   line for a comment to stay on, so a comment after it is an entry of its own.
3. **Items get their separators** (`Placed`): nothing, a semicolon, a line break or
   a blank line.

After that the documents of the items and their separators are strung together.
-/

namespace DiagramText

/-- A node among others, with its document. -/
structure Entry where
  node : Node
  doc : Doc

/-- An entry and the comment that stays on its line. -/
structure Item where
  entry : Entry
  /-- The comment after the entry, on its last line. -/
  trailing : Option Entry
  /-- Whether the source has a blank line in front of the entry. -/
  afterGap : Bool

namespace Item

/-- Whether the source has a blank line between the line `last` and an entry. -/
def isAfterGap (last : Option Nat) (e : Entry) : Bool :=
  match last with
  | none => false
  | some line => 1 < e.node.firstLine - line

/-- Whether the second entry is a comment that stays on the line of the first. -/
def attaches (role : Node → Role) (e next : Entry) : Bool :=
  next.node.isComment && next.node.firstLine == e.node.lastLine &&
    !(role e.node).isEmptyBoard

/-- The items of a row of entries.  `keep` says whether comments stay on the line
of the entry before them, and `last` is the line on which the entry before the
row ends. -/
def group (role : Node → Role) (keep : Bool) : Option Nat → List Entry → List Item
  | _, [] => []
  | last, [e] => [⟨e, none, isAfterGap last e⟩]
  | last, e :: next :: rest =>
      if keep && attaches role e next then
        ⟨e, some next, isAfterGap last e⟩ :: group role keep (some next.node.lastLine) rest
      else
        ⟨e, none, isAfterGap last e⟩ :: group role keep (some e.node.lastLine) (next :: rest)

/-- The entries of an item, in the order in which they are printed. -/
def entries (item : Item) : List Entry := item.entry :: item.trailing.toList

/-- The documents of an item: its entry, and its comment after a space. -/
def docs (item : Item) : List Doc :=
  match item.trailing with
  | none => [item.entry.doc]
  | some comment => [item.entry.doc, .ofString " ", comment.doc]

@[simp] theorem group_nil (role : Node → Role) (keep : Bool) (last : Option Nat) :
    group role keep last [] = [] := by
  simp [group]

/-- Grouping loses nothing and keeps the order. -/
theorem flatMap_entries_group (role : Node → Role) (keep : Bool) (last : Option Nat)
    (es : List Entry) : (group role keep last es).flatMap entries = es := by
  fun_induction group role keep last es with
  | case1 => rfl
  | case2 => rfl
  | case3 last e next rest _ ih => simp [entries, ih]
  | case4 last e next rest _ ih => simp [entries, ih]

/-- When no comment stays on the line of an entry, there is an item for each
entry. -/
theorem map_entry_group_false (role : Node → Role) (last : Option Nat) (es : List Entry) :
    (group role false last es).map entry = es := by
  induction es generalizing last with
  | nil => simp
  | cons e es ih =>
      cases es with
      | nil => simp [group]
      | cons next rest => simp [group, ih]

end Item

/-- What stands between an item and the one before it. -/
inductive Separator where
  /-- Nothing. -/
  | nothing
  /-- A semicolon and a space. -/
  | semicolon
  /-- A line break. -/
  | newline
  /-- A blank line. -/
  | blankLine
  deriving DecidableEq

/-- The documents of a separator. -/
def Separator.docs : Separator → List Doc
  | nothing => []
  | semicolon => [.ofString "; "]
  | newline => [.hardLine]
  | blankLine => [.bareLine, .hardLine]

/-- An item with the separator in front of it. -/
structure Placed where
  separator : Separator
  item : Item

namespace Placed

/-- The documents of a placed item. -/
def docs (p : Placed) : List Doc := p.separator.docs ++ p.item.docs

/-- Items on one line. -/
def inline : List Item → List Placed
  | [] => []
  | first :: rest => ⟨.nothing, first⟩ :: rest.map fun item => ⟨.semicolon, item⟩

/-- Items below each other, with the blank lines of the source.  The first item
stands behind the given separator. -/
def stacked (opening : Separator) : List Item → List Placed
  | [] => []
  | first :: rest =>
      ⟨opening, first⟩ ::
        rest.map fun item => ⟨if item.afterGap then .blankLine else .newline, item⟩

/-- Groups of boards below each other, with a blank line in front of each.  The
first group stands behind the given separator. -/
def boards (opening : Separator) : List Item → List Placed
  | [] => []
  | first :: rest => ⟨opening, first⟩ :: rest.map fun item => ⟨.blankLine, item⟩

/-- Placing items on one line keeps the items. -/
@[simp] theorem map_item_inline (items : List Item) : (inline items).map item = items := by
  cases items <;> simp [inline, Function.comp_def]

/-- Placing items below each other keeps the items. -/
@[simp] theorem map_item_stacked (opening : Separator) (items : List Item) :
    (stacked opening items).map item = items := by
  cases items <;> simp [stacked, Function.comp_def]

/-- Placing groups of boards keeps the groups. -/
@[simp] theorem map_item_boards (opening : Separator) (items : List Item) :
    (boards opening items).map item = items := by
  cases items <;> simp [boards, Function.comp_def]

end Placed

/-! ## Arrays and maps -/

/-- The placed elements of an array. -/
def ArrayLit.arrange (oneLine : Bool) (es : List Entry) : List Placed :=
  let items := Item.group (fun _ => .ordinary) (!oneLine) none es
  if oneLine then Placed.inline items else Placed.stacked .newline items

namespace MapLit

/-- The items of a map, in the order of the source. -/
def items (oneLine : Bool) (es : List Entry) : List Item :=
  Item.group Node.role (!oneLine) none es

/-- The items that are printed where they stand. -/
def ordinaryItems (items : List Item) : List Item :=
  items.filter fun item => item.entry.node.role == .ordinary

/-- The groups of boards, in the order in which they are printed. -/
def boardItems (items : List Item) : List Item :=
  BoardKind.gather (fun item => item.entry.node.role.kind?) items

/-- The placed items of a map: the ordinary ones, then the groups of boards.  Over
several lines a group has a blank line in front of it, except where it opens a
file. -/
def arrange (isFile oneLine : Bool) (es : List Entry) : List Placed :=
  let all := items oneLine es
  let ordinary := ordinaryItems all
  let groups := boardItems all
  if oneLine then Placed.inline (ordinary ++ groups)
  else
    Placed.stacked (if isFile then .nothing else .newline) ordinary ++
      Placed.boards (if isFile && ordinary.isEmpty then .nothing else .blankLine) groups

/-- The items of a map are printed in one order, whatever the layout: the
ordinary ones, then the groups of boards. -/
theorem map_item_arrange (isFile oneLine : Bool) (es : List Entry) :
    (arrange isFile oneLine es).map Placed.item =
      ordinaryItems (items oneLine es) ++ boardItems (items oneLine es) := by
  unfold arrange
  cases oneLine <;> simp

end MapLit

end DiagramText
