import DiagramText.Proofs.EntryOrder
import DiagramText.Proofs.Reading.Fragment

/-!
# Maps on one line

In a map on one line nothing of the source shows but its entries.  Comments do not stay with
the entry before them, there are no blank lines, and every separator is a semicolon.  What is
left of the layout is the order: the ordinary entries come first, then the groups of boards by
kind, and groups without boards are not printed.

So the document of such a map is a function of four lists: its ordinary entries, and its
groups of each of the three kinds (`MapLit.toDoc_of_isInline`).  Where in the map a group of
boards stood, what stood around it, and how many groups without boards there were, cannot be
told from the document (`MapLit.toDoc_eq_of_filter_role_eq`).

Over several lines this fails.  A comment goes with the group that it stood behind, and the
blank line in front of an entry is measured from the group before it.
-/

namespace DiagramText

/-! ## Single entries on one line -/

namespace Doc

/-- Documents with a separator in front of each but the first. -/
theorem intersperse_cons (sep d : Doc) (ds : List Doc) :
    (d :: ds).intersperse sep = d :: ds.flatMap fun next => [sep, next] := by
  induction ds generalizing d with
  | nil => rfl
  | cons next rest ih =>
      rw [List.intersperse_cons_cons, ih, List.flatMap_cons]
      rfl

end Doc

/-- Single entries on one line are their documents, with semicolons between them. -/
theorem Placed.flatMap_docs_inline_of_single {items : List Item}
    (single : ∀ item ∈ items, item.trailing = none) :
    (inline items).flatMap docs =
      (items.map fun item => item.entry.doc).intersperse (.ofString "; ") := by
  cases items with
  | nil => rfl
  | cons first rest =>
      have hdocs : ∀ item ∈ rest, docs ⟨.semicolon, item⟩ = [.ofString "; ", item.entry.doc] := by
        intro item hitem
        rw [docs, Item.docs_of_trailing_eq_none (single item (List.mem_cons_of_mem first hitem))]
        rfl
      rw [inline, List.flatMap_cons, List.flatMap_map, List.flatMap_congr hdocs, docs,
        Item.docs_of_trailing_eq_none (single first List.mem_cons_self), List.map_cons,
        Doc.intersperse_cons, List.flatMap_map]
      rfl

/-! ## The document of a map on one line -/

namespace MapLit

/-- The nodes that a map prints, in the order in which it does if no comment stays with
another entry: by role, and within a role in their order. -/
def printedNodes (nodes : List Node) : List Node :=
  printedRoles.flatMap fun role => nodes.filter fun node => node.role == role

/-- The items of a map on one line print its nodes by role. -/
theorem map_doc_items (nodes : List Node) :
    ((ordinaryItems (items true (Node.entries nodes)) ++
        boardItems (items true (Node.entries nodes))).map fun item => item.entry.doc) =
      (printedNodes nodes).map Node.toDoc := by
  have hentries : (items true (Node.entries nodes)).map Item.entry = Node.entries nodes :=
    Item.map_entry_group_false Node.role none _
  have hrole : ∀ role : Role, ((items true (Node.entries nodes)).filter fun item =>
      item.entry.node.role == role).map (fun item => item.entry.doc) =
        (nodes.filter fun node => node.role == role).map Node.toDoc := by
    intro role
    have hfilter := congrArg
      (fun es => (es.filter fun e => e.node.role == role).map Entry.doc) hentries
    rw [List.filter_map, List.map_map, Node.entries_eq_map, List.filter_map, List.map_map]
      at hfilter
    rw [Node.entries_eq_map]
    exact hfilter
  rw [ordinaryItems_append_boardItems, printedNodes, List.map_flatMap, List.map_flatMap]
  exact List.flatMap_congr fun role _ => hrole role

/-- **A map on one line is its printed nodes between braces, with semicolons between them.** -/
theorem toDoc_of_isInline {m : MapLit} (h : isInline m.span m.isFile = true) :
    m.toDoc = Brackets.braces.enclose true
      (((printedNodes m.nodes).map Node.toDoc).intersperse (.ofString "; ")) := by
  obtain ⟨nodes, span, isFile⟩ := m
  have hfile : isFile = false := by
    rw [isInline, Bool.and_eq_true, Bool.not_eq_true'] at h
    exact h.1
  have hsingle : ∀ item ∈ ordinaryItems (items true (Node.entries nodes)) ++
      boardItems (items true (Node.entries nodes)), item.trailing = none := by
    intro item hitem
    rw [ordinaryItems_append_boardItems, List.mem_flatMap] at hitem
    obtain ⟨role, -, hmem⟩ := hitem
    exact Item.trailing_eq_none_of_mem_group (Or.inl rfl) item (List.mem_filter.mp hmem).1
  rw [toDoc, docOf, h, hfile, arrange, if_pos rfl, if_neg Bool.false_ne_true,
    Placed.flatMap_docs_inline_of_single hsingle, map_doc_items]

/-- **The place of boards does not show on one line.**  Two maps on one line have the same
document if they have the same ordinary entries in the same order and, for each kind, the same
groups of boards in the same order.  How these lists are mixed is of no account, and groups
without boards may stand anywhere. -/
theorem toDoc_eq_of_filter_role_eq {m m' : MapLit} (hfile : m.isFile = false)
    (hfile' : m'.isFile = false) (hline : m.span.isOneLine = true)
    (hline' : m'.span.isOneLine = true)
    (hordinary : (m.nodes.filter fun node => node.role == .ordinary) =
      m'.nodes.filter fun node => node.role == .ordinary)
    (hboards : ∀ kind, (m.nodes.filter fun node => node.role == .board kind) =
      m'.nodes.filter fun node => node.role == .board kind) :
    m.toDoc = m'.toDoc := by
  have hnodes : printedNodes m.nodes = printedNodes m'.nodes := by
    refine List.flatMap_congr fun role hrole => ?_
    cases role with
    | ordinary => exact hordinary
    | board kind => exact hboards kind
    | emptyBoard kind =>
        exact absurd ((mem_printedRoles_iff _).mp hrole) (by simp [Role.isEmptyBoard])
  have hinline : isInline m.span m.isFile = true := by rw [isInline, hfile, hline]; rfl
  have hinline' : isInline m'.span m'.isFile = true := by rw [isInline, hfile', hline']; rfl
  rw [toDoc_of_isInline hinline, toDoc_of_isInline hinline', hnodes]

/-- A key without a value. -/
def plainKey (name : String) : Node := .key (.ofPath (.ofTexts [name]))

/-- A group of boards. -/
def boardGroup (kind : BoardKind) (boards : List Node) : Node :=
  .key ⟨none, some (.ofTexts [kind.name]), [], none, none, none, some (.map (.scope boards)),
    .unset⟩

/-- Groups of boards in front of the ordinary entries, between them and behind them. -/
def mixedEntries : MapLit :=
  .scope [boardGroup .layers [plainKey "x"], plainKey "a", boardGroup .steps [],
    boardGroup .scenarios [plainKey "y"], plainKey "b", boardGroup .layers [plainKey "z"]]

/-- The same entries on another line, with the groups at the end and more groups without
boards. -/
def sortedEntries : MapLit :=
  ⟨[boardGroup .layers [], plainKey "a", plainKey "b", boardGroup .scenarios [plainKey "y"],
    boardGroup .layers [plainKey "x"], boardGroup .scenarios [], boardGroup .layers [plainKey "z"]],
    .ofLine 4, false⟩

theorem toDoc_eq_of_filter_role_eq_mixedEntries :
    mixedEntries.nodes.map Node.role ≠ sortedEntries.nodes.map Node.role ∧
      mixedEntries.toDoc = sortedEntries.toDoc := by
  refine ⟨by decide, toDoc_eq_of_filter_role_eq rfl rfl (by decide) (by decide) ?_ ?_⟩
  · rfl
  · intro kind
    cases kind <;> rfl

end MapLit
end DiagramText
