import DiagramText.Proofs.IndentationLevels
import DiagramText.Proofs.KeyText
import DiagramText.Proofs.OneLineMaps

/-!
# What is left out

Two things of a tree are not printed.  A map leaves out its groups without boards, and a key
leaves out a value that is a map without entries.  Nothing is lost by either if what is left
out has nothing to say.  Both decisions look at the tree and not at what would be printed, and
this file says where that makes a difference.

* **A group without boards may say more than its name.**  Whether a key is such a group is
  decided by its edges, its path and its value.  Its other parts are a marker, an index, the
  path of a field and a short value, and a group that has one of them is left out with it
  (`Key.format_emptyBoard_iff`).  In `layers: Views {}` this is the text `Views`.
* **A map with entries may print none.**  A map whose entries are all groups without boards is
  printed as `{}`, and so is a map on one line whose only printed entry has no text.  A key
  leaves its value out exactly if the value is a map without entries in the tree, so behind a
  key these maps are printed (`Key.format_withoutValue_iff`).  Reading `x: {}` gives a map
  without entries, and what is printed for that is `x`.
-/

namespace DiagramText

/-! ## Groups without boards -/

namespace Text

variable {α β : Type}

/-- A text that stays the same when others are put around it has only empty ones around it. -/
theorem append_around_eq_self_iff {front text a b c : List α} :
    front ++ text ++ a ++ b ++ c = text ↔ front = [] ∧ a = [] ∧ b = [] ∧ c = [] := by
  constructor
  · intro h
    have hlength := congrArg List.length h
    simp only [List.length_append] at hlength
    simp only [← List.length_eq_zero_iff]
    omega
  · rintro ⟨rfl, rfl, rfl, rfl⟩
    simp

/-- An optional part leaves no text exactly if it is absent, provided that each part has a
text. -/
theorem flatMap_toList_eq_nil_iff {f : α → List β} (hf : ∀ x, f x ≠ []) (part : Option α) :
    part.toList.flatMap f = [] ↔ part = none := by
  cases part with
  | none => simp
  | some x => simp [hf x]

end Text

namespace Key

variable {k : Key} {kind : BoardKind}

/-- A group without boards has no edges, its path is a single segment, and it prints no
value. -/
theorem exists_of_role_eq_emptyBoard (h : k.role = .emptyBoard kind) :
    ∃ path segment, k.path = some path ∧ path.segments.head? = some segment ∧ k.edges = [] ∧
      Value.printed? k.value = none := by
  obtain ⟨hkind, m, hvalue, hm⟩ := (k.role_eq_emptyBoard_iff kind).mp h
  rw [boardKind?] at hkind
  split at hkind
  · rename_i hedges
    obtain ⟨name, hname, -⟩ := Option.bind_eq_some_iff.mp hkind
    obtain ⟨path, hpath, hsingle⟩ := Option.bind_eq_some_iff.mp hname
    obtain ⟨segment, hsegments, -⟩ := (path.single?_eq_some_iff name).mp hsingle
    refine ⟨path, segment, hpath, by rw [hsegments]; rfl, List.isEmpty_iff.mp hedges, ?_⟩
    rw [hvalue, Value.printed?, if_pos (by rw [Value.isEmptyMap, hm]; rfl)]
  · exact absurd hkind (by simp)

/-- **A group without boards is left out with all that it says.**  No map prints it, wherever
it stands.  Its own text is that of its path exactly if it has no marker, no index, no path of
a field and no short value. -/
theorem format_emptyBoard_iff (i : Indentation) (h : k.role = .emptyBoard kind) :
    (∀ (m : MapLit) (j : Nat), m.nodes[j]? = some (.key k) → j ∉ m.printOrder) ∧
      ∃ path, k.path = some path ∧
        ((Node.key k).format i = (Node.keyPath path).format i ↔
          k.marker = none ∧ k.edgeIndex = none ∧ k.edgePath = none ∧ k.primary = none) := by
  obtain ⟨path, segment, hpath, hsegment, hedges, hvalue⟩ := exists_of_role_eq_emptyBoard h
  refine ⟨?_, path, hpath, ?_⟩
  · intro m j hj
    have hdropped : MapLit.isDropped m.nodes j = true := by
      rw [MapLit.isDropped, MapLit.roleAt, hj, Option.map_some, Option.any_some, Node.role, h]
      rfl
    rw [m.printOrder_perm.mem_iff, List.mem_filter, hdropped]
    simp
  · have hmarker : ∀ marker : Marker, marker.text.toList ≠ [] := by
      intro marker
      cases marker <;> decide
    rw [Node.format_eq_iff_chars, Node.toDoc, Node.toDoc,
      chars_toDoc_of_path i 0 hpath hsegment hedges hvalue, Text.append_around_eq_self_iff,
      Text.flatMap_toList_eq_nil_iff hmarker,
      Text.flatMap_toList_eq_nil_iff fun index => index.chars_toDoc_ne_nil i 0,
      Text.flatMap_toList_eq_nil_iff (by simp), Text.flatMap_toList_eq_nil_iff (by simp)]

/-- A group without boards that has a short value: `layers: Views {}`. -/
def labelledLayers : Key :=
  ⟨none, some (.ofTexts ["layers"]), [], none, none, some (.string (.bare "Views")),
    some (.map (.scope [])), .unset⟩

theorem format_emptyBoard_iff_labelledLayers :
    labelledLayers.role = .emptyBoard .layers ∧ 0 ∉ (MapLit.file [.key labelledLayers]).printOrder ∧
      (Node.key labelledLayers).format {} ≠
        (Node.keyPath (.ofTexts ["layers"])).format {} := by
  have hrole : labelledLayers.role = .emptyBoard .layers := by decide
  obtain ⟨hdropped, path, hpath, hiff⟩ := format_emptyBoard_iff {} hrole
  refine ⟨hrole, hdropped _ 0 rfl, ?_⟩
  obtain rfl : KeyPath.ofTexts ["layers"] = path := Option.some.inj hpath
  rw [ne_eq, hiff]
  rintro ⟨-, -, -, hprimary⟩
  exact absurd hprimary (by simp [labelledLayers])

end Key

/-! ## Maps that print no entry -/

namespace Doc

/-- A document between two others is not a single text. -/
theorem surround_ne_text {opening closing : Doc} (hopening : opening ≠ nil)
    (hclosing : closing ≠ nil) (content : Doc) (s : String) :
    surround opening content closing ≠ text s := by
  have hfront : opening ++ content ≠ nil := by
    rw [ne_eq, append_eq_nil_iff]
    exact fun h => hopening h.1
  rw [surround, append_of_ne hfront hclosing]
  exact Doc.noConfusion

/-- Documents with separators between them come to nothing only if there are none, or a single
one that is nothing. -/
theorem allNil_intersperse_iff {sep : Doc} (hsep : sep ≠ nil) (ds : List Doc) :
    allNil (ds.intersperse sep) = true ↔ ds = [] ∨ ds = [nil] := by
  match ds with
  | [] => simp [allNil]
  | [d] => simp [allNil]
  | d :: e :: es => simp [allNil, hsep]

end Doc

/-- Braces are printed as `{}` exactly if all that stands between them is nothing. -/
theorem Brackets.enclose_braces_eq_text_iff (oneLine : Bool) (parts : List Doc) :
    braces.enclose oneLine parts = .text "\x7b\x7d" ↔ Doc.allNil parts = true := by
  rw [enclose]
  cases hparts : Doc.allNil parts with
  | true => simp only [if_true]; decide
  | false =>
      rw [if_neg Bool.false_ne_true]
      refine iff_of_false ?_ Bool.false_ne_true
      split
      · exact Doc.surround_ne_text (by decide) (by decide) _ _
      · exact Doc.surround_ne_text (by decide) (by decide) _ _

namespace MapLit

/-- A file is not printed as a single text, since it ends with a line break. -/
theorem fileDoc_ne_text (parts : List Doc) (s : String) : fileDoc parts ≠ .text s := by
  rw [fileDoc]
  split
  · exact Doc.noConfusion
  · rename_i hparts
    rw [Doc.allNil_iff_concat] at hparts
    rw [Doc.append_of_ne hparts Doc.noConfusion]
    exact Doc.noConfusion

/-- A map prints no entry exactly if all its entries are groups without boards. -/
theorem printedNodes_eq_nil_iff (nodes : List Node) :
    printedNodes nodes = [] ↔ ∀ node ∈ nodes, node.role.isEmptyBoard = true := by
  rw [printedNodes, List.flatMap_eq_nil_iff]
  constructor
  · intro h node hnode
    rw [← Bool.not_eq_false, ← mem_printedRoles_iff]
    intro hrole
    exact List.filter_eq_nil_iff.mp (h node.role hrole) node hnode (beq_self_eq_true _)
  · intro h role hrole
    rw [List.filter_eq_nil_iff]
    intro node hnode heq
    rw [beq_iff_eq] at heq
    rw [mem_printedRoles_iff, ← heq, h node hnode] at hrole
    exact absurd hrole (by simp)

theorem printOrder_eq_nil_iff (m : MapLit) : m.printOrder = [] ↔ printedNodes m.nodes = [] := by
  have hdropped : m.printOrder = [] ↔ ∀ j < m.nodes.length, isDropped m.nodes j = true := by
    rw [← List.perm_nil, m.printOrder_perm.congr_left, List.perm_nil, List.filter_eq_nil_iff]
    simp
  rw [hdropped, printedNodes_eq_nil_iff, List.forall_mem_iff_getElem]
  refine forall₂_congr fun j hj => ?_
  rw [isDropped, roleAt, List.getElem?_eq_getElem hj]
  rfl

/-- No item of a map is placed exactly if it prints no entry, since every item has one. -/
theorem arrange_eq_nil_iff (m : MapLit) :
    arrange m.isFile (isInline m.span m.isFile) (Node.entries m.nodes) = [] ↔
      printedNodes m.nodes = [] := by
  have hentries := map_some_entries_arrange m
  rw [← printOrder_eq_nil_iff]
  constructor
  · intro harrange
    rw [harrange] at hentries
    exact List.map_eq_nil_iff.mp hentries.symm
  · intro horder
    rw [horder, List.map_nil, List.map_eq_nil_iff, List.flatMap_map,
      List.flatMap_eq_nil_iff] at hentries
    rw [List.eq_nil_iff_forall_not_mem]
    intro p hp
    exact absurd (hentries p hp) (List.cons_ne_nil _ _)

end MapLit

/-- Items of which the first starts a line come to nothing only if there are none. -/
theorem Placed.allNil_flatMap_docs_iff {placed : List Placed} (h : StartsLine placed) :
    Doc.allNil (placed.flatMap docs) = true ↔ placed = [] := by
  cases placed with
  | nil => simp [Doc.allNil]
  | cons p rest =>
      refine iff_of_false ?_ (List.cons_ne_nil _ _)
      rw [Doc.allNil_iff, List.flatMap_cons, docs]
      intro hall
      have hbreak : Doc.hardLine ∈ p.separator.docs := by
        rcases h p rfl with hsep | hsep <;> simp [hsep, Separator.docs]
      exact absurd (hall .hardLine (by simp [hbreak])) Doc.noConfusion

namespace MapLit

/-- **When a map is printed as `{}`.**  It is not a file, and either all its entries are groups
without boards, or it stands on one line and the only entry that it prints has no text. -/
theorem toDoc_eq_text_braces_iff (m : MapLit) :
    m.toDoc = .text "\x7b\x7d" ↔
      m.isFile = false ∧ (printedNodes m.nodes = [] ∨
        m.span.isOneLine = true ∧ ∃ node, printedNodes m.nodes = [node] ∧ node.toDoc = .nil) := by
  have harrange := arrange_eq_nil_iff m
  have hinline := @toDoc_of_isInline m
  obtain ⟨nodes, span, isFile⟩ := m
  cases isFile with
  | true =>
      rw [toDoc, docOf, if_pos rfl]
      simp [fileDoc_ne_text]
  | false =>
      cases hline : span.isOneLine with
      | true =>
          rw [hinline hline, Brackets.enclose_braces_eq_text_iff,
            Doc.allNil_intersperse_iff (by decide), List.map_eq_nil_iff, List.map_eq_singleton_iff]
          simp
      | false =>
          have hspread : isInline span false = false := hline
          rw [hspread] at harrange
          rw [toDoc, docOf, if_neg Bool.false_ne_true, Brackets.enclose_braces_eq_text_iff, hspread,
            Placed.allNil_flatMap_docs_iff (startsLine_arrange _), harrange]
          simp

end MapLit

namespace Key

/-- **A key leaves its value out exactly if that is a map without entries**, and not whenever it
is a map that is printed as `{}`: the maps that are printed so are those without entries to
print. -/
theorem format_withoutValue_iff (i : Indentation) {k : Key} {m : MapLit}
    (h : k.value = some (.map m)) :
    ((Node.key k).format i = (Node.key k.withoutValue).format i ↔ m.nodes = []) ∧
      (m.toDoc = .text "\x7b\x7d" ↔
        m.isFile = false ∧ (MapLit.printedNodes m.nodes = [] ∨
          m.span.isOneLine = true ∧
            ∃ node, MapLit.printedNodes m.nodes = [node] ∧ node.toDoc = .nil)) := by
  refine ⟨?_, m.toDoc_eq_text_braces_iff⟩
  rw [Node.format_eq_iff_chars, Node.toDoc, Node.toDoc, chars_toDoc_eq_append_value, h,
    List.append_right_eq_self, Value.printed?, Value.isEmptyMap]
  cases hnodes : m.nodes with
  | nil => simp [valueDocs]
  | cons node rest => cases k.primary <;> simp [valueDocs]

/-- A key with a map whose only entry is a group without boards: `x: { layers: {} }`. -/
def emptiedMap : MapLit := .scope [MapLit.boardGroup .layers []]

theorem format_withoutValue_iff_emptiedMap :
    emptiedMap.toDoc = .text "\x7b\x7d" ∧
      (Node.key (.ofPathValue (.ofTexts ["x"]) (some (.map emptiedMap)))).format {} ≠
        (Node.key (.ofPath (.ofTexts ["x"]))).format {} := by
  have hiff := @format_withoutValue_iff {} (.ofPathValue (.ofTexts ["x"]) (some (.map emptiedMap)))
    emptiedMap rfl
  refine ⟨hiff.2.mpr ⟨rfl, Or.inl (by rfl)⟩, ?_⟩
  intro heq
  exact absurd (hiff.1.mp heq) (List.cons_ne_nil _ _)

end Key
end DiagramText
