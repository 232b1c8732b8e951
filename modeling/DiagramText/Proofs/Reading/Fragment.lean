import DiagramText.Format
import DiagramText.Proofs.DocText
import DiagramText.Proofs.Reading.Bare
import Mathlib.Data.List.Basic

/-!
# Keys and values without edges

Most of a diagram is keys with values: strings, arrays, and maps of keys again.
This file singles out the trees that consist of nothing else and were not read from
a source, and says what their text is.  They are the *core* trees.

* A **core string** is a single text.  Between single quotes it has no line feed,
  and a bare one is neither empty nor a word with a meaning of its own.
* A **core value** is the null value, a core string, an array of core values, or a
  scope with at least one entry, all of them core.
* A **core entry** is a key that is a path of core strings, with at most a core
  value, and that is not a group of boards.

## The text of a core tree

Nothing of a core tree spans several lines, so arrays and scopes stand on one line
with semicolons between (`chars_array`, `chars_scope`), and in a file each entry
has a line of its own (`chars_file`).  There are no comments and no boards, so the
entries are printed in the order in which they stand.
-/

namespace DiagramText

/-! ## Core trees -/

/-- A string that is a single text. -/
inductive StringLit.IsCore : StringLit → Prop
  /-- A bare string.  It is not empty and has no meaning of its own. -/
  | unquoted {s : String} (nonempty : s ≠ "") (notNull : Text.isNull s = false)
      (notReserved : Keyword.isReserved s = false) : IsCore (.unquoted [.text s] .unset)
  /-- A string between double quotes, with any text. -/
  | doubleQuoted (s : String) : IsCore (.doubleQuoted [.text s] .unset)
  /-- A string between single quotes, with any text on one line. -/
  | singleQuoted {s : String} (oneLine : '\n' ∉ s.toList) : IsCore (.singleQuoted s .unset)

/-- A key path of core strings. -/
structure KeyPath.IsCore (path : KeyPath) : Prop where
  nonempty : path.segments ≠ []
  segments : ∀ segment ∈ path.segments, segment.IsCore
  span : path.span = .unset

/-- A key that is a path and possibly has a value. -/
def Key.ofPathValue (path : KeyPath) (value : Option Value) : Key :=
  ⟨none, some path, [], none, none, none, value, .unset⟩

mutual

/-- A value made of core strings. -/
inductive Value.IsCore : Value → Prop
  | null : Value.IsCore (.scalar (.null .unset))
  | string {s : StringLit} (core : s.IsCore) : Value.IsCore (.scalar (.string s))
  | array {nodes : List Node} (elements : ∀ node ∈ nodes, Node.IsCoreElement node) :
      Value.IsCore (.array ⟨nodes, .unset⟩)
  | scope {nodes : List Node} (nonempty : nodes ≠ [])
      (entries : ∀ node ∈ nodes, Node.IsCoreEntry node) :
      Value.IsCore (.map ⟨nodes, .unset, false⟩)

/-- An element of an array that is a core value. -/
inductive Node.IsCoreElement : Node → Prop
  | value {v : Value} (core : v.IsCore) : Node.IsCoreElement (.value v)

/-- An entry of a map that is a core key, and is printed where it stands. -/
inductive Node.IsCoreEntry : Node → Prop
  | bare {path : KeyPath} (core : path.IsCore)
      (ordinary : (Key.ofPathValue path none).role = .ordinary) :
      Node.IsCoreEntry (.key (Key.ofPathValue path none))
  | bound {path : KeyPath} {v : Value} (core : path.IsCore) (coreValue : v.IsCore)
      (ordinary : (Key.ofPathValue path (some v)).role = .ordinary) :
      Node.IsCoreEntry (.key (Key.ofPathValue path (some v)))

end

/-- A file of core entries. -/
structure MapLit.IsCoreFile (m : MapLit) : Prop where
  isFile : m.isFile = true
  span : m.span = .unset
  entries : ∀ node ∈ m.nodes, node.IsCoreEntry

namespace Node.IsCoreEntry

variable {node : Node}

theorem role_eq (h : node.IsCoreEntry) : node.role = .ordinary := by
  cases h with
  | bare core ordinary => exact ordinary
  | bound core coreValue ordinary => exact ordinary

theorem span_eq (h : node.IsCoreEntry) : node.span = .unset := by
  cases h <;> rfl

theorem isComment_eq (h : node.IsCoreEntry) : node.isComment = false := by
  cases h <;> rfl

end Node.IsCoreEntry

/-! ## Items without comments -/

namespace Item

variable {role : Node → Role} {keep : Bool}

/-- If comments do not stay on the line of an entry, or there are none, then every
item is a single entry. -/
theorem trailing_eq_none_of_mem_group {last : Option Nat} {es : List Entry}
    (h : keep = false ∨ ∀ e ∈ es, e.node.isComment = false) :
    ∀ item ∈ group role keep last es, item.trailing = none := by
  fun_induction group role keep last es with
  | case1 => simp
  | case2 => simp
  | case3 last e next rest hattach ih =>
      rw [Bool.and_eq_true] at hattach
      rcases h with hkeep | hcomment
      · exact absurd hattach.1 (by simp [hkeep])
      · have hnext := hcomment next (by simp)
        exact absurd hattach.2 (by simp [attaches, hnext])
  | case4 last e next rest hattach ih =>
      intro item hitem
      rcases List.mem_cons.mp hitem with rfl | hitem
      · rfl
      · exact ih (h.imp_right fun hcomment x hx => hcomment x (List.mem_cons_of_mem e hx)) item hitem

/-- Items that are single entries are the entries. -/
theorem map_entry_group {last : Option Nat} {es : List Entry}
    (h : keep = false ∨ ∀ e ∈ es, e.node.isComment = false) :
    (group role keep last es).map entry = es := by
  have hsingle : ∀ item ∈ group role keep last es, [item.entry] = item.entries := by
    intro item hitem
    rw [entries, trailing_eq_none_of_mem_group h item hitem]
    rfl
  rw [List.map_eq_flatMap, List.flatMap_congr hsingle, flatMap_entries_group]

/-- An item that is a single entry has the document of the entry. -/
theorem docs_of_trailing_eq_none {item : Item} (h : item.trailing = none) :
    item.docs = [item.entry.doc] := by
  rw [docs, h]

/-- If no entry has a gap of more than a line in front, no item has one. -/
theorem afterGap_of_mem_group {last : Option Nat} {es : List Entry}
    (h : ∀ e ∈ es, e.node.firstLine = 0) :
    ∀ item ∈ group role keep last es, item.afterGap = false := by
  have hgap : ∀ (last : Option Nat) (e : Entry), e.node.firstLine = 0 → isAfterGap last e = false := by
    intro last e he
    cases last <;> simp [isAfterGap, he]
  fun_induction group role keep last es with
  | case1 => simp
  | case2 last e => simp [hgap last e (h e (by simp))]
  | case3 last e next rest hattach ih =>
      intro item hitem
      rcases List.mem_cons.mp hitem with rfl | hitem
      · exact hgap last e (h e (by simp))
      · exact ih (fun x hx => h x (by simp [hx])) item hitem
  | case4 last e next rest hattach ih =>
      intro item hitem
      rcases List.mem_cons.mp hitem with rfl | hitem
      · exact hgap last e (h e (by simp))
      · exact ih (fun x hx => h x (List.mem_cons_of_mem e hx)) item hitem

end Item

namespace MapLit

/-- If every entry is ordinary, all items are printed where they stand. -/
theorem ordinaryItems_eq_self {items : List Item}
    (h : ∀ item ∈ items, item.entry.node.role = .ordinary) : ordinaryItems items = items := by
  rw [ordinaryItems, List.filter_eq_self]
  intro item hitem
  simp [h item hitem]

/-- If every entry is ordinary, there are no groups of boards. -/
theorem boardItems_eq_nil {items : List Item}
    (h : ∀ item ∈ items, item.entry.node.role = .ordinary) : boardItems items = [] := by
  rw [List.eq_nil_iff_forall_not_mem]
  intro item hitem
  obtain ⟨hmem, hkind⟩ := (BoardKind.mem_gather _ _ _).mp hitem
  rw [h item hmem] at hkind
  exact absurd hkind (by simp [Role.kind?])

end MapLit

/-! ## Entries on one line, and entries on lines of their own -/

namespace Placed

variable (i : Indentation) (n : Nat)

/-- A placed item prints its separator and then the item. -/
theorem chars_docs (p : Placed) :
    Doc.chars i n (Doc.concat p.docs) =
      Doc.chars i n (Doc.concat p.separator.docs) ++ Doc.chars i n (Doc.concat p.item.docs) := by
  rw [docs, Doc.chars_concat, List.flatMap_append, Doc.chars_concat, Doc.chars_concat]

/-- Items on one line have semicolons between them. -/
theorem chars_inline (items : List Item) :
    Doc.chars i n (Doc.concat ((inline items).flatMap docs)) =
      [';', ' '].intercalate (items.map fun item => Doc.chars i n (Doc.concat item.docs)) := by
  rw [Doc.chars_concat_flatMap]
  cases items with
  | nil => rfl
  | cons first rest =>
      rw [inline, List.flatMap_cons, List.map_cons, Text.intercalate_cons_eq, List.flatMap_map,
        List.flatMap_map, chars_docs]
      congr 1
      refine List.flatMap_congr fun item _ => ?_
      rw [chars_docs, Separator.docs, Doc.concat_singleton, Doc.chars_ofString]
      rfl

/-- Items of a file have line feeds between them, if the source had no blank
lines. -/
theorem chars_stacked {items : List Item} (h : ∀ item ∈ items, item.afterGap = false) :
    Doc.chars i 0 (Doc.concat ((stacked .nothing items).flatMap docs)) =
      ['\n'].intercalate (items.map fun item => Doc.chars i 0 (Doc.concat item.docs)) := by
  rw [Doc.chars_concat_flatMap]
  cases items with
  | nil => rfl
  | cons first rest =>
      rw [stacked, List.flatMap_cons, List.map_cons, Text.intercalate_cons_eq, List.flatMap_map,
        List.flatMap_map, chars_docs]
      congr 1
      refine List.flatMap_congr fun item hitem => ?_
      rw [chars_docs, h item (List.mem_cons_of_mem first hitem), if_neg Bool.false_ne_true,
        Separator.docs, Doc.concat_singleton, Doc.chars_hardLine_zero]

end Placed

/-- Single entries that are strung together print the documents of the nodes. -/
theorem Item.map_chars_docs (i : Indentation) (n : Nat) {items : List Item} {nodes : List Node}
    (single : ∀ item ∈ items, item.trailing = none)
    (entries : items.map Item.entry = Node.entries nodes) :
    items.map (fun item => Doc.chars i n (Doc.concat item.docs)) =
      nodes.map fun node => Doc.chars i n node.toDoc := by
  have hdocs : ∀ item ∈ items,
      Doc.chars i n (Doc.concat item.docs) = (Doc.chars i n ∘ Entry.doc) item.entry := by
    intro item hitem
    rw [Item.docs_of_trailing_eq_none (single item hitem), Doc.concat_singleton]
    rfl
  have hmap : items.map (fun item => (Doc.chars i n ∘ Entry.doc) item.entry) =
      (items.map Item.entry).map (Doc.chars i n ∘ Entry.doc) := by
    rw [List.map_map]
    rfl
  rw [List.map_congr_left hdocs, hmap, entries, Node.entries_eq_map, List.map_map]
  rfl

/-! ## The text of arrays, scopes and files -/

section Text

variable (i : Indentation) (n : Nat) (nodes : List Node)

/-- Brackets on one line, around something. -/
theorem Brackets.chars_enclose_inline (b : Brackets) {parts : List Doc}
    (h : Doc.allNil parts = false) :
    Doc.chars i n (b.enclose true parts) =
      (b.opening ++ b.padding).toList ++ Doc.chars i n (Doc.concat parts) ++
        (b.padding ++ b.closing).toList := by
  rw [enclose, h, if_neg Bool.false_ne_true, if_pos rfl, Doc.chars_surround, Doc.chars_ofString,
    Doc.chars_ofString]

/-- An array outside every source stands on one line. -/
theorem ArrayLit.chars_toDoc :
    Doc.chars i n (ArrayLit.toDoc ⟨nodes, .unset⟩) =
      '[' :: ([';', ' '].intercalate (nodes.map fun node => Doc.chars i n node.toDoc) ++ [']']) := by
  have hparts : Doc.chars i n (Doc.concat
      ((ArrayLit.arrange true (Node.entries nodes)).flatMap Placed.docs)) =
      [';', ' '].intercalate (nodes.map fun node => Doc.chars i n node.toDoc) := by
    rw [ArrayLit.arrange, if_pos rfl, Bool.not_true, Placed.chars_inline,
      Item.map_chars_docs i n (Item.trailing_eq_none_of_mem_group (Or.inl rfl))
        (Item.map_entry_group (Or.inl rfl))]
  rw [ArrayLit.toDoc, ArrayLit.docOf, Span.isOneLine_unset]
  cases hnil : Doc.allNil ((ArrayLit.arrange true (Node.entries nodes)).flatMap Placed.docs) with
  | true =>
      -- nothing stands between the brackets, whichever way it is said
      rw [(Doc.allNil_iff_concat _).mp hnil, Doc.chars_nil] at hparts
      rw [Brackets.enclose, hnil, if_pos rfl, ← hparts, Doc.chars_ofString]
      rfl
  | false =>
      rw [Brackets.chars_enclose_inline i n _ hnil, hparts]
      rfl

variable {nodes}

/-- The items of core entries are single, and are the entries. -/
theorem MapLit.items_of_core (oneLine : Bool) (h : ∀ node ∈ nodes, node.IsCoreEntry) :
    (∀ item ∈ MapLit.items oneLine (Node.entries nodes), item.trailing = none) ∧
      (MapLit.items oneLine (Node.entries nodes)).map Item.entry = Node.entries nodes := by
  have hcomment : ∀ e ∈ Node.entries nodes, e.node.isComment = false := by
    rw [Node.entries_eq_map]
    rintro e he
    obtain ⟨node, hnode, rfl⟩ := List.mem_map.mp he
    exact (h node hnode).isComment_eq
  exact ⟨Item.trailing_eq_none_of_mem_group (Or.inr hcomment),
    Item.map_entry_group (Or.inr hcomment)⟩

/-- The node of an item of core entries is one of them. -/
theorem MapLit.node_mem_of_mem_items {oneLine : Bool} (h : ∀ node ∈ nodes, node.IsCoreEntry)
    {item : Item} (hitem : item ∈ MapLit.items oneLine (Node.entries nodes)) :
    item.entry.node ∈ nodes := by
  have hentry := List.mem_map_of_mem (f := Item.entry) hitem
  rw [(MapLit.items_of_core oneLine h).2] at hentry
  have hnode := List.mem_map_of_mem (f := Entry.node) hentry
  rwa [Node.map_node_entries] at hnode

/-- Core entries are placed in the order in which they stand. -/
theorem MapLit.arrange_of_core (isFile oneLine : Bool) (h : ∀ node ∈ nodes, node.IsCoreEntry) :
    MapLit.arrange isFile oneLine (Node.entries nodes) =
      if oneLine then Placed.inline (MapLit.items oneLine (Node.entries nodes))
      else Placed.stacked (if isFile then .nothing else .newline)
        (MapLit.items oneLine (Node.entries nodes)) := by
  have hrole : ∀ item ∈ MapLit.items oneLine (Node.entries nodes),
      item.entry.node.role = .ordinary := by
    intro item hitem
    exact (h _ (MapLit.node_mem_of_mem_items h hitem)).role_eq
  rw [MapLit.arrange, MapLit.ordinaryItems_eq_self hrole, MapLit.boardItems_eq_nil hrole,
    List.append_nil]
  simp [Placed.boards]

/-- A scope of core entries that print something stands on one line. -/
theorem MapLit.chars_toDoc_scope (h : ∀ node ∈ nodes, node.IsCoreEntry)
    (hne : [';', ' '].intercalate (nodes.map fun node => Doc.chars i n node.toDoc) ≠ []) :
    Doc.chars i n (MapLit.toDoc ⟨nodes, .unset, false⟩) =
      '\x7b' :: ' ' ::
        ([';', ' '].intercalate (nodes.map fun node => Doc.chars i n node.toDoc) ++
          [' ', '\x7d']) := by
  obtain ⟨hsingle, hentries⟩ := MapLit.items_of_core true h
  have hparts : Doc.chars i n (Doc.concat
      ((MapLit.arrange false true (Node.entries nodes)).flatMap Placed.docs)) =
      [';', ' '].intercalate (nodes.map fun node => Doc.chars i n node.toDoc) := by
    rw [MapLit.arrange_of_core false true h, if_pos rfl, Placed.chars_inline,
      Item.map_chars_docs i n hsingle hentries]
  have hnil : Doc.allNil ((MapLit.arrange false true (Node.entries nodes)).flatMap Placed.docs) =
      false := by
    rw [← Bool.not_eq_true, Doc.allNil_iff_concat]
    exact Doc.ne_nil_of_chars_ne i n (hparts ▸ hne)
  rw [MapLit.toDoc, MapLit.docOf, if_neg Bool.false_ne_true,
    show MapLit.isInline Span.unset false = true from rfl, Brackets.chars_enclose_inline i n _ hnil,
    hparts]
  rfl

/-- In a file of core entries, each entry has a line of its own. -/
theorem MapLit.chars_toDoc_file (h : ∀ node ∈ nodes, node.IsCoreEntry)
    (hne : ∀ node ∈ nodes, Doc.chars i 0 node.toDoc ≠ []) :
    Doc.chars i 0 (MapLit.toDoc ⟨nodes, .unset, true⟩) =
      nodes.flatMap fun node => Doc.chars i 0 node.toDoc ++ ['\n'] := by
  obtain ⟨hsingle, hentries⟩ := MapLit.items_of_core false h
  have hgap : ∀ item ∈ MapLit.items false (Node.entries nodes), item.afterGap = false := by
    refine Item.afterGap_of_mem_group ?_
    rw [Node.entries_eq_map]
    rintro e he
    obtain ⟨node, hnode, rfl⟩ := List.mem_map.mp he
    rw [Node.firstLine, (h node hnode).span_eq]
    rfl
  have hparts : Doc.chars i 0 (Doc.concat
      ((MapLit.arrange true false (Node.entries nodes)).flatMap Placed.docs)) =
      ['\n'].intercalate (nodes.map fun node => Doc.chars i 0 node.toDoc) := by
    rw [MapLit.arrange_of_core true false h, if_neg Bool.false_ne_true, if_pos rfl,
      Placed.chars_stacked i hgap, Item.map_chars_docs i 0 hsingle hentries]
  rw [MapLit.toDoc, MapLit.docOf, if_pos rfl, show MapLit.isInline Span.unset true = false from rfl,
    MapLit.fileDoc]
  cases nodes with
  | nil => rfl
  | cons first others =>
      have hfirst := Text.length_le_length_intercalate_of_mem ['\n']
        (List.mem_map_of_mem (f := fun node => Doc.chars i 0 (Node.toDoc node))
          (List.mem_cons_self : first ∈ first :: others))
      have hpos := List.length_pos_iff.mpr (hne first List.mem_cons_self)
      have hnil : Doc.allNil ((MapLit.arrange true false
          (Node.entries (first :: others))).flatMap Placed.docs) = false := by
        rw [← Bool.not_eq_true, Doc.allNil_iff_concat]
        refine Doc.ne_nil_of_chars_ne i 0 (List.length_pos_iff.mp ?_)
        rw [hparts]
        omega
      rw [hnil, if_neg Bool.false_ne_true, Doc.chars_append, hparts, Doc.chars_hardLine_zero,
        Text.intercalate_append_eq ['\n'] (by simp), List.flatMap_map]

/-- A key that is a path prints the path, and its value after a colon. -/
theorem Key.chars_toDoc_ofPathValue (path : KeyPath) (value : Option Value) :
    Doc.chars i n (Key.ofPathValue path value).toDoc =
      Doc.chars i n path.toDoc ++
        ((Value.printed? value).toList.flatMap fun doc => ':' :: ' ' :: Doc.chars i n doc) := by
  rw [Key.ofPathValue, Key.toDoc, Key.docOf]
  cases Value.printed? value <;>
    simp [Key.subjectDocs, Key.edgeDocs, Key.fieldDocs, Key.primaryDocs, Key.valueDocs,
      Doc.chars_concat]

end Text

/-! ## A core tree prints something -/

section Nonempty

variable (i : Indentation) (n : Nat)

theorem StringLit.IsCore.chars_ne_nil {s : StringLit} (h : s.IsCore) (ctx : Context) :
    Doc.chars i n (s.toDoc ctx) ≠ [] := by
  cases h with
  | unquoted nonempty notNull notReserved =>
      rw [StringLit.chars_unquoted]
      intro hnil
      exact Escape.unquoted_ne_empty ctx _ (String.toList_eq_nil_iff.mp hnil)
  | doubleQuoted s => rw [StringLit.chars_doubleQuoted]; simp
  | singleQuoted oneLine => rw [StringLit.chars_singleQuoted]; simp

theorem KeyPath.IsCore.chars_ne_nil {path : KeyPath} (h : path.IsCore) :
    Doc.chars i n path.toDoc ≠ [] := by
  obtain ⟨segments, span⟩ := path
  obtain ⟨first, others, hsegments⟩ := List.exists_cons_of_ne_nil h.nonempty
  have hfirst := (h.segments first (hsegments ▸ List.mem_cons_self)).chars_ne_nil i n .key
  have hsegments' : segments = first :: others := hsegments
  rw [hsegments', KeyPath.chars_toDoc, List.map_cons, Text.intercalate_cons_eq]
  intro hnil
  exact hfirst (List.append_eq_nil_iff.mp hnil).1

theorem Node.IsCoreEntry.chars_ne_nil {node : Node} (h : node.IsCoreEntry) :
    Doc.chars i n node.toDoc ≠ [] := by
  cases h with
  | bare core ordinary =>
      rw [Node.toDoc, Key.chars_toDoc_ofPathValue]
      intro hnil
      exact core.chars_ne_nil i n (List.append_eq_nil_iff.mp hnil).1
  | bound core coreValue ordinary =>
      rw [Node.toDoc, Key.chars_toDoc_ofPathValue]
      intro hnil
      exact core.chars_ne_nil i n (List.append_eq_nil_iff.mp hnil).1

/-- Core entries on one line print something, if there are any. -/
theorem MapLit.intercalate_ne_nil {nodes : List Node} (hne : nodes ≠ [])
    (h : ∀ node ∈ nodes, node.IsCoreEntry) :
    [';', ' '].intercalate (nodes.map fun node => Doc.chars i n node.toDoc) ≠ [] := by
  obtain ⟨first, others, rfl⟩ := List.exists_cons_of_ne_nil hne
  rw [List.map_cons, Text.intercalate_cons_eq]
  intro hnil
  exact (h first List.mem_cons_self).chars_ne_nil i n (List.append_eq_nil_iff.mp hnil).1

theorem Value.IsCore.chars_ne_nil {v : Value} (h : v.IsCore) : Doc.chars i n v.toDoc ≠ [] := by
  cases h with
  | null =>
      rw [Value.toDoc, Scalar.toDoc, Doc.chars_ofString]
      decide
  | string core => exact core.chars_ne_nil i n .value
  | array elements =>
      rw [Value.toDoc, ArrayLit.chars_toDoc]
      simp
  | scope nonempty entries =>
      rw [Value.toDoc, MapLit.chars_toDoc_scope i n entries
        (MapLit.intercalate_ne_nil i n nonempty entries)]
      simp

/-- A core value is never the map without entries that a key leaves out. -/
theorem Value.IsCore.printed?_eq {v : Value} (h : v.IsCore) :
    Value.printed? (some v) = some v.toDoc := by
  have hprinted : v.isEmptyMap = false := by
    cases h with
    | scope nonempty entries => simpa [Value.isEmptyMap] using nonempty
    | _ => rfl
  rw [Value.printed?, hprinted, if_neg Bool.false_ne_true]

end Nonempty

end DiagramText
