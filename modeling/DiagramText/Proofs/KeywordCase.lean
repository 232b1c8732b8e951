import DiagramText.Format
import DiagramText.Proofs.CanonicalTree
import DiagramText.Proofs.DocText
import DiagramText.Proofs.SameLayout

/-!
# Reserved words in upper case

A reserved word is printed in lower case, however it was written.  One would like to
go further and say that its case does not matter at all: put every reserved word of a
tree in lower case (`canonical`), and the text stays the same.

## Where the case does matter

The documents of strings keep, and so do those of everything that is put together
from them.  Only the *order* of the entries of a map does not look at documents.  It
looks at roles, and a group of boards is recognised by its name in lower case.  So
`Layers: { … }` is an ordinary key, while `layers: { … }` goes to the end, and
although both are printed with the same letters they are printed in different
places.

A key is a **capital board** if it would be a group of boards but for the upper case
of its name.  If no map of a tree has an entry of this sort, then the roles keep as
well, and the case of reserved words does not matter for the tree.  And each such
entry, whatever else there is to it, makes a difference in the file that has it in
front of one more key.
-/

namespace DiagramText

/-! ## Names of boards -/

namespace BoardKind

/-- Whether a text is the name of a group of boards, but for its upper case. -/
def isCapital (s : String) : Bool := (ofName? s.toLower).isSome && s != s.toLower

theorem toLower_name (kind : BoardKind) : kind.name.toLower = kind.name := by
  cases kind <;> decide +kernel

/-- A text names no group exactly if it is the name of none. -/
theorem ofName?_eq_none_iff (s : String) :
    ofName? s = none ↔ ∀ kind : BoardKind, s ≠ kind.name := by
  simp only [Option.eq_none_iff_forall_ne_some, ne_eq, ofName?_eq_some_iff]

/-- A text with upper case names no group. -/
theorem ofName?_of_ne_toLower {s : String} (h : s ≠ s.toLower) : ofName? s = none := by
  rw [ofName?_eq_none_iff]
  rintro kind rfl
  exact h (toLower_name kind).symm

/-- No group of boards has a dollar sign in its name. -/
theorem ofName?_of_mem {s : String} (h : '$' ∈ s.toList) : ofName? s = none := by
  rw [ofName?_eq_none_iff]
  rintro kind rfl
  revert h
  cases kind <;> decide

/-- The name of a group of boards is a reserved word. -/
theorem isReserved_of_toLower_eq_name {s : String} {kind : BoardKind}
    (h : s.toLower = kind.name) : Keyword.isReserved s = true := by
  rw [Keyword.isReserved_iff, h]
  cases kind <;> decide +kernel

/-- A text that is not the name of a group in upper case names the same group, if
any, in the spelling in which it is printed. -/
theorem ofName?_canonical {s : String} (h : isCapital s = false) :
    ofName? (Keyword.canonical s) = ofName? s := by
  cases hreserved : Keyword.isReserved s with
  | false => rw [Keyword.canonical_of_not_isReserved hreserved]
  | true =>
      rw [Keyword.canonical_of_isReserved hreserved]
      by_cases hlower : s = s.toLower
      · rw [← hlower]
      · have hnone : ofName? s.toLower = none := by
          simpa [isCapital, hlower] using h
        rw [hnone, ofName?_of_ne_toLower hlower]

/-- The name of a group in upper case is not recognised, but is printed as the name
of the group. -/
theorem exists_name_of_isCapital {s : String} (h : isCapital s = true) :
    ofName? s = none ∧ ∃ kind : BoardKind, Keyword.canonical s = kind.name := by
  rw [isCapital, Bool.and_eq_true, Option.isSome_iff_exists, bne_iff_ne] at h
  obtain ⟨⟨kind, hkind⟩, hupper⟩ := h
  rw [ofName?_eq_some_iff] at hkind
  refine ⟨ofName?_of_ne_toLower hupper, kind, ?_⟩
  rw [Keyword.canonical_of_isReserved (isReserved_of_toLower_eq_name hkind), hkind]

end BoardKind

/-- Whether a string is the name of a group of boards, but for its upper case. -/
def StringLit.isCapitalBoard : StringLit → Bool
  | .unquoted [.text content] _ => BoardKind.isCapital content
  | _ => false

/-- Whether a key path is the name of a group of boards, but for its upper case. -/
def KeyPath.isCapitalBoard : KeyPath → Bool
  | ⟨[segment], _⟩ => segment.isCapitalBoard
  | _ => false

/-- Whether a key would be a group of boards but for the upper case of its name. -/
def Key.isCapitalBoard (k : Key) : Bool :=
  k.edges.isEmpty && k.path.any KeyPath.isCapitalBoard && (k.value.bind Value.map?).isSome

/-- Whether an entry would be a group of boards but for the upper case of its
name. -/
def Node.isCapitalBoard : Node → Bool
  | .key content => content.isCapitalBoard
  | _ => false

/-! ## Roles

A substitution shows in a plain text with a dollar sign, which no name of a group
has.  So a string with a substitution names no group before the change and none
after it, and a string without is changed only if it is a single text. -/

/-- Pieces are not changed, or else show a dollar sign before and after. -/
theorem Piece.canonicals_eq_self_or (pieces : List Piece) :
    Piece.canonicals pieces = pieces ∨
      '$' ∈ (Piece.plainTexts pieces).toList ∧
        '$' ∈ (Piece.plainTexts (Piece.canonicals pieces)).toList := by
  induction pieces with
  | nil => exact .inl (by rw [Piece.canonicals])
  | cons piece rest ih =>
      cases piece with
      | text content =>
          rw [Piece.canonicals, Piece.plainTexts, Piece.plainTexts, String.toList_append,
            String.toList_append]
          rcases ih with hsame | ⟨hbefore, hafter⟩
          · exact .inl (by rw [hsame])
          · exact .inr ⟨List.mem_append_right _ hbefore, List.mem_append_right _ hafter⟩
      | substitution reference =>
          refine .inr ?_
          obtain ⟨spread, path, span⟩ := reference
          rw [Piece.canonicals, Substitution.canonical, Piece.plainTexts, Piece.plainTexts,
            Substitution.plainText, Substitution.plainText]
          simp

theorem Piece.plainTexts_single (content : String) :
    Piece.plainTexts [.text content] = content := by
  rw [Piece.plainTexts, Piece.plainTexts, String.append_empty]

/-- Only a single text is respelled. -/
theorem Piece.respelled_canonicals_of_not_single {pieces : List Piece}
    (h : ¬∃ content, pieces = [.text content]) :
    Piece.respelled (Piece.canonicals pieces) = Piece.canonicals pieces := by
  match pieces, h with
  | [], _ => rw [Piece.canonicals, Piece.respelled]; simp
  | [.text content], h => exact absurd ⟨content, rfl⟩ h
  | .text content :: next :: rest, _ =>
      cases next <;> rw [Piece.canonicals, Piece.canonicals, Piece.respelled] <;> simp
  | .substitution reference :: rest, _ => rw [Piece.canonicals, Piece.respelled]; simp

theorem BoardKind.ofName?_plainTexts_canonicals (pieces : List Piece) :
    ofName? (Piece.plainTexts (Piece.canonicals pieces)) = ofName? (Piece.plainTexts pieces) := by
  rcases Piece.canonicals_eq_self_or pieces with hsame | ⟨hbefore, hafter⟩
  · rw [hsame]
  · rw [ofName?_of_mem hbefore, ofName?_of_mem hafter]

theorem StringLit.ofName?_plainText_canonical {s : StringLit} (h : s.isCapitalBoard = false) :
    BoardKind.ofName? s.canonical.plainText = BoardKind.ofName? s.plainText := by
  cases s with
  | unquoted pieces span =>
      by_cases hsingle : ∃ content, pieces = [.text content]
      · obtain ⟨content, rfl⟩ := hsingle
        rw [StringLit.canonical_single, StringLit.plainText, StringLit.plainText,
          Piece.plainTexts_single, Piece.plainTexts_single]
        exact BoardKind.ofName?_canonical h
      · rw [StringLit.canonical, StringLit.plainText, StringLit.plainText,
          Piece.respelled_canonicals_of_not_single hsingle,
          BoardKind.ofName?_plainTexts_canonicals]
  | doubleQuoted pieces span =>
      rw [StringLit.canonical, StringLit.plainText, StringLit.plainText,
        BoardKind.ofName?_plainTexts_canonicals]
  | singleQuoted content span => rw [StringLit.canonical]
  | block content => rw [StringLit.canonical]

/-- A key path that is not the name of a group in upper case names the same group, if
any, after the change. -/
theorem KeyPath.single?_bind_canonical {path : KeyPath} (h : path.isCapitalBoard = false) :
    path.canonical.single?.bind BoardKind.ofName? = path.single?.bind BoardKind.ofName? := by
  obtain ⟨segments, span⟩ := path
  match segments with
  | [] => rw [KeyPath.canonical, StringLit.canonicals]
  | [segment] =>
      rw [KeyPath.canonical_single]
      exact StringLit.ofName?_plainText_canonical h
  | first :: second :: rest =>
      rw [KeyPath.canonical, StringLit.canonicals, StringLit.canonicals]
      rfl

namespace Key

variable {k : Key}

theorem map?_value_canonical (k : Key) :
    k.canonical.value.bind Value.map? = (k.value.bind Value.map?).map MapLit.canonical := by
  obtain ⟨marker, path, edges, index, edgePath, primary, value, span⟩ := k
  rw [canonical]
  cases value with
  | none => rw [Value.canonical?]; rfl
  | some v => cases v <;> rw [Value.canonical?, Value.canonical] <;> rfl

theorem boardKind?_canonical (h : (k.edges.isEmpty && k.path.any KeyPath.isCapitalBoard) = false) :
    k.canonical.boardKind? = k.boardKind? := by
  obtain ⟨marker, path, edges, index, edgePath, primary, value, span⟩ := k
  rw [canonical, boardKind?, boardKind?, List.isEmpty_map]
  cases hedges : edges.isEmpty with
  | false => rfl
  | true =>
      cases path with
      | none => rfl
      | some path =>
          have hpath : path.isCapitalBoard = false := by
            simpa [hedges] using h
          rw [if_pos rfl, if_pos rfl, Option.map_some, Option.bind_some, Option.bind_some,
            KeyPath.single?_bind_canonical hpath]

/-- A key that is not a group of boards in upper case has the same role after the
change. -/
theorem role_canonical (h : k.isCapitalBoard = false) : k.canonical.role = k.role := by
  rw [role, role, map?_value_canonical]
  cases hmap : k.value.bind Value.map? with
  | none => cases k.canonical.boardKind? <;> cases k.boardKind? <;> rfl
  | some m =>
      have hname : (k.edges.isEmpty && k.path.any KeyPath.isCapitalBoard) = false := by
        simpa [isCapitalBoard, hmap] using h
      rw [boardKind?_canonical hname]
      cases k.boardKind? with
      | none => rfl
      | some kind =>
          show (if m.canonical.nodes.isEmpty then _ else _) = if m.nodes.isEmpty then _ else _
          rw [MapLit.isEmpty_nodes_canonical]

end Key

theorem Node.role_canonical {node : Node} (h : node.isCapitalBoard = false) :
    node.canonical.role = node.role := by
  cases node with
  | key content => exact Key.role_canonical h
  | _ => rfl

/-! ## Trees without capital boards -/

mutual

/-- Whether no map in a value has a capital board among its entries. -/
def Value.hasLowerBoards : Value → Bool
  | .scalar _ => true
  | .imported _ => true
  | .array content => content.hasLowerBoards
  | .map content => content.hasLowerBoards

/-- Whether no map in an array has a capital board among its entries. -/
def ArrayLit.hasLowerBoards : ArrayLit → Bool
  | ⟨nodes, _⟩ => Node.haveLowerBoards nodes

/-- Whether neither a map nor one inside it has a capital board among its entries. -/
def MapLit.hasLowerBoards : MapLit → Bool
  | ⟨nodes, _, _⟩ => nodes.all (fun node => !node.isCapitalBoard) && Node.haveLowerBoards nodes

/-- Whether no map in the value of a key has a capital board among its entries. -/
def Key.hasLowerBoards : Key → Bool
  | ⟨_, _, _, _, _, _, value, _⟩ => Value.haveLowerBoards value

/-- Whether no map in a value that may be missing has a capital board among its
entries. -/
def Value.haveLowerBoards : Option Value → Bool
  | none => true
  | some value => value.hasLowerBoards

/-- Whether no map in a node has a capital board among its entries. -/
def Node.hasLowerBoards : Node → Bool
  | .value content => content.hasLowerBoards
  | .key content => content.hasLowerBoards
  | _ => true

/-- Whether no map in any of the nodes has a capital board among its entries. -/
def Node.haveLowerBoards : List Node → Bool
  | [] => true
  | node :: rest => node.hasLowerBoards && Node.haveLowerBoards rest

end

/-- Nodes that keep their documents and their roles are laid out alike. -/
theorem Node.forall₂_alike_canonicals {role : Node → Role} {nodes : List Node}
    (hdoc : ∀ node ∈ nodes, node.canonical.toDoc = node.toDoc)
    (hrole : ∀ node ∈ nodes, role node.canonical = role node) :
    List.Forall₂ (Entry.Alike role 0) (Node.entries nodes)
      (Node.entries (Node.canonicals nodes)) := by
  rw [Node.canonicals_eq_map, Node.entries_eq_map, Node.entries_eq_map, List.map_map,
    List.forall₂_map_left_iff, List.forall₂_map_right_iff, List.forall₂_same]
  intro node hnode
  refine ⟨hdoc node hnode, hrole node hnode, node.isComment_canonical, ?_, ?_⟩
  · show node.canonical.span.start.line = node.span.start.line
    rw [node.span_canonical]
  · show node.canonical.span.stop.line = node.span.stop.line
    rw [node.span_canonical]

mutual

/-- Putting reserved words in lower case does not change the document of a value, if
it has no capital boards.  The cases of an array and of a map are those of
`docOf_congr`. -/
theorem Value.toDoc_canonical :
    ∀ v : Value, v.hasLowerBoards = true → v.canonical.toDoc = v.toDoc
  | .scalar content, _ => by
      rw [Value.canonical, Value.toDoc, Value.toDoc, content.toDoc_canonical]
  | .imported file, _ => by
      rw [Value.canonical, Value.toDoc, Value.toDoc, file.toDoc_canonical]
  | .array content, h => by
      rw [Value.canonical, Value.toDoc, Value.toDoc, ArrayLit.toDoc_canonical content h]
  | .map content, h => by
      rw [Value.canonical, Value.toDoc, Value.toDoc, MapLit.toDoc_canonical content h]

theorem ArrayLit.toDoc_canonical :
    ∀ content : ArrayLit, content.hasLowerBoards = true → content.canonical.toDoc = content.toDoc
  | ⟨nodes, span⟩, h => by
      rw [ArrayLit.hasLowerBoards] at h
      rw [ArrayLit.canonical, ArrayLit.toDoc, ArrayLit.toDoc]
      exact ArrayLit.docOf_congr rfl
        (Node.forall₂_alike_canonicals (Node.toDoc_canonical_of_mem nodes h) fun _ _ => rfl)

theorem MapLit.toDoc_canonical :
    ∀ content : MapLit, content.hasLowerBoards = true → content.canonical.toDoc = content.toDoc
  | ⟨nodes, span, isFile⟩, h => by
      rw [MapLit.hasLowerBoards, Bool.and_eq_true, List.all_eq_true] at h
      rw [MapLit.canonical, MapLit.toDoc, MapLit.toDoc]
      refine MapLit.docOf_congr isFile rfl
        (Node.forall₂_alike_canonicals (Node.toDoc_canonical_of_mem nodes h.2) ?_)
      intro node hnode
      exact Node.role_canonical (by simpa using h.1 node hnode)

theorem Key.toDoc_canonical :
    ∀ k : Key, k.hasLowerBoards = true → k.canonical.toDoc = k.toDoc
  | ⟨marker, path, edges, index, edgePath, primary, value, span⟩, h => by
      rw [Key.canonical, Key.toDoc, Key.toDoc, Key.docOf_canonical,
        Value.printed?_canonical value h]

theorem Value.printed?_canonical :
    ∀ value : Option Value, Value.haveLowerBoards value = true →
      Value.printed? (Value.canonical? value) = Value.printed? value
  | none, _ => by rw [Value.canonical?]
  | some v, h => by
      rw [Value.canonical?, Value.printed?, Value.printed?, v.isEmptyMap_canonical,
        Value.toDoc_canonical v h]

theorem Node.toDoc_canonical :
    ∀ node : Node, node.hasLowerBoards = true → node.canonical.toDoc = node.toDoc
  | .comment content, _ => by rw [Node.canonical]
  | .value content, h => by
      rw [Node.canonical, Node.toDoc, Node.toDoc, Value.toDoc_canonical content h]
  | .substitution content, _ => by
      rw [Node.canonical, Node.toDoc, Node.toDoc, content.toDoc_canonical]
  | .key content, h => by
      rw [Node.canonical, Node.toDoc, Node.toDoc, Key.toDoc_canonical content h]
  | .keyPath content, _ => by
      rw [Node.canonical, Node.toDoc, Node.toDoc, content.toDoc_canonical]
  | .edge content, _ => by
      rw [Node.canonical, Node.toDoc, Node.toDoc, content.toDoc_canonical]
  | .edgeIndex content, _ => by rw [Node.canonical]

theorem Node.toDoc_canonical_of_mem :
    ∀ nodes : List Node, Node.haveLowerBoards nodes = true →
      ∀ node ∈ nodes, node.canonical.toDoc = node.toDoc
  | [], _ => by simp
  | first :: rest, h => by
      rw [Node.haveLowerBoards, Bool.and_eq_true] at h
      rw [List.forall_mem_cons]
      exact ⟨Node.toDoc_canonical first h.1, Node.toDoc_canonical_of_mem rest h.2⟩

end

/-! ## Capital boards make a difference

In front of another key, a capital board comes first as it stands, and second once
its name is in lower case, if it is printed at all then.  The two texts already
differ in their first character. -/

namespace MapLit

/-- The text of a file starts as the first document that it puts together. -/
theorem head?_chars_fileDoc (i : Indentation) {first : Doc} {rest : List Doc} {c : Char}
    (h : (Doc.chars i 0 first).head? = some c) :
    (Doc.chars i 0 (fileDoc (first :: rest))).head? = some c := by
  have hfirst : first ≠ .nil := by
    rintro rfl
    rw [Doc.chars_nil] at h
    exact absurd h (by simp)
  have hnil : Doc.allNil (first :: rest) = false := by
    rw [← Bool.not_eq_true, Doc.allNil_iff]
    intro hall
    exact hfirst (hall first List.mem_cons_self)
  rw [fileDoc, hnil, if_neg Bool.false_ne_true, Doc.chars_append, Doc.chars_concat,
    List.flatMap_cons, List.head?_append, List.head?_append, h]
  rfl

variable (e next : Entry)

/-- Two entries of which the second is no comment are two items. -/
theorem items_pair (hnext : next.node.isComment = false) :
    items false [e, next] =
      [⟨e, none, false⟩, ⟨next, none, Item.isAfterGap (some e.node.lastLine) next⟩] := by
  have hattach : Item.attaches Node.role e next = false := by
    rw [Item.attaches, hnext, Bool.false_and, Bool.false_and]
  rw [items, Item.group, hattach, Bool.and_false, if_neg Bool.false_ne_true, Item.group]
  rfl

/-- A file of two entries of which the first is ordinary starts with the first. -/
theorem exists_arrange_of_ordinary (hrole : e.node.role = .ordinary)
    (hnext : next.node.isComment = false) :
    ∃ rest, (arrange true false [e, next]).flatMap Placed.docs = e.doc :: rest := by
  rw [arrange, items_pair e next hnext]
  simp [ordinaryItems, hrole, Placed.stacked, Placed.docs, Separator.docs, Item.docs]

/-- A file of two entries of which only the second is ordinary starts with the
second. -/
theorem exists_arrange_of_ne_ordinary (hrole : e.node.role ≠ .ordinary)
    (hnext : next.node.isComment = false) (hordinary : next.node.role = .ordinary) :
    ∃ rest, (arrange true false [e, next]).flatMap Placed.docs = next.doc :: rest := by
  rw [arrange, items_pair e next hnext]
  simp [ordinaryItems, hrole, hordinary, Placed.stacked, Placed.docs, Separator.docs, Item.docs]

end MapLit

/-- What a capital name is: a single bare text that is the name of a group of boards
but for its upper case. -/
theorem KeyPath.exists_of_isCapitalBoard {path : KeyPath} (h : path.isCapitalBoard = true) :
    ∃ content segmentSpan span, path = ⟨[.unquoted [.text content] segmentSpan], span⟩ ∧
      BoardKind.isCapital content = true := by
  obtain ⟨segments, span⟩ := path
  unfold KeyPath.isCapitalBoard at h
  split at h
  · rename_i segment span' hpath
    unfold StringLit.isCapitalBoard at h
    split at h
    · exact ⟨_, _, _, hpath, h⟩
    · exact absurd h Bool.false_ne_true
  · exact absurd h Bool.false_ne_true

namespace Key

variable {k : Key}

/-- What a capital board is: a key without edges and with a map, whose path is a
single text that is not recognised, but is printed as the name of a group. -/
theorem exists_of_isCapitalBoard (h : k.isCapitalBoard = true) :
    ∃ content segmentSpan span kind m,
      k.edges = [] ∧ k.path = some ⟨[.unquoted [.text content] segmentSpan], span⟩ ∧
      k.value = some (.map m) ∧ BoardKind.ofName? content = none ∧
      Keyword.canonical content = BoardKind.name kind := by
  rw [isCapitalBoard, Bool.and_eq_true, Bool.and_eq_true, List.isEmpty_iff,
    Option.any_eq_true] at h
  obtain ⟨⟨hedges, path, hpath, hcapital⟩, hvalue⟩ := h
  obtain ⟨content, segmentSpan, span, rfl, hname⟩ := path.exists_of_isCapitalBoard hcapital
  obtain ⟨hnone, kind, hcanonical⟩ := BoardKind.exists_name_of_isCapital hname
  obtain ⟨m, hm⟩ := Option.isSome_iff_exists.mp hvalue
  obtain ⟨v, hv, hmap⟩ := Option.bind_eq_some_iff.mp hm
  rw [Value.map?_eq_some_iff] at hmap
  exact ⟨content, segmentSpan, span, kind, m, hedges, hpath, by rw [hv, hmap], hnone, hcanonical⟩

/-- A capital board is an ordinary entry. -/
theorem role_of_isCapitalBoard (h : k.isCapitalBoard = true) : k.role = .ordinary := by
  obtain ⟨content, segmentSpan, span, kind, m, hedges, hpath, -, hnone, -⟩ :=
    exists_of_isCapitalBoard h
  have hkind : k.boardKind? = none := by
    rw [boardKind?, hedges, hpath]
    show BoardKind.ofName? (Piece.plainTexts [.text content]) = none
    rw [Piece.plainTexts_single, hnone]
  rw [role, hkind]

/-- A capital board with its name in lower case is a group of boards. -/
theorem role_canonical_of_isCapitalBoard (h : k.isCapitalBoard = true) :
    k.canonical.role ≠ .ordinary := by
  obtain ⟨content, segmentSpan, span, kind, m, hedges, hpath, hvalue, -, hcanonical⟩ :=
    exists_of_isCapitalBoard h
  have hkind : k.canonical.boardKind? = some kind := by
    cases k
    subst hedges hpath
    rw [canonical, boardKind?, Option.map_some, KeyPath.canonical_single,
      StringLit.canonical_single]
    show BoardKind.ofName? (Piece.plainTexts [.text (Keyword.canonical content)]) = some kind
    rw [Piece.plainTexts_single, BoardKind.ofName?_eq_some_iff, hcanonical]
  rw [role, hkind, map?_value_canonical, hvalue]
  show (if m.canonical.nodes.isEmpty then Role.emptyBoard kind else .board kind) ≠ .ordinary
  split <;> simp

/-- The text of a capital board does not start with an `x`. -/
theorem exists_head?_of_isCapitalBoard (i : Indentation) (h : k.isCapitalBoard = true) :
    ∃ c, (Doc.chars i 0 k.toDoc).head? = some c ∧ c ≠ 'x' := by
  obtain ⟨content, segmentSpan, span, kind, m, -, hpath, -, -, hcanonical⟩ :=
    exists_of_isCapitalBoard h
  have hchars : Doc.chars i 0 (KeyPath.toDoc ⟨[.unquoted [.text content] segmentSpan], span⟩) =
      (Escape.unquoted .key kind.name).toList := by
    rw [KeyPath.chars_toDoc, List.map_singleton, List.intercalate_singleton,
      StringLit.chars_unquoted, hcanonical]
  obtain ⟨marker, path, edges, index, edgePath, primary, value, keySpan⟩ := k
  subst hpath
  rw [toDoc, docOf, subjectDocs, Doc.chars_concat]
  cases marker with
  | some marker => cases marker <;> simp [Marker.text]
  | none =>
      have hhead : ∃ c, (Escape.unquoted .key kind.name).toList.head? = some c ∧ c ≠ 'x' := by
        cases kind with
        | layers => exact ⟨'l', by decide +kernel, by decide⟩
        | scenarios => exact ⟨'s', by decide +kernel, by decide⟩
        | steps => exact ⟨'s', by decide +kernel, by decide⟩
      obtain ⟨c, hc, hne⟩ := hhead
      refine ⟨c, ?_, hne⟩
      simp [hchars, hc]

/-- The key `x`. -/
def plainX : Key := .ofPath (.ofTexts ["x"])

/-- The file that has a key in front of the key `x`. -/
def fileBeforeX (k : Key) : Node := .value (.map (.file [.key k, .key plainX]))

theorem canonical_plainX : plainX.canonical = plainX := by
  have hword : Keyword.canonical "x" = "x" := by decide +kernel
  show Key.canonical ⟨_, some ⟨[.unquoted [.text "x"] _], _⟩, [], _, none, none, none, _⟩ = _
  rw [canonical, Option.map_some, KeyPath.canonical_single, StringLit.canonical_single, hword,
    Value.canonical?]
  rfl

theorem canonical_fileBeforeX (k : Key) : k.fileBeforeX.canonical = k.canonical.fileBeforeX := by
  rw [fileBeforeX, MapLit.file, Node.canonical, Value.canonical, MapLit.canonical,
    Node.canonicals, Node.canonicals, Node.canonicals, Node.canonical, Node.canonical,
    canonical_plainX]
  rfl

theorem head?_chars_plainX (i : Indentation) : (Doc.chars i 0 plainX.toDoc).head? = some 'x' := by
  have hchars : Doc.chars i 0 (KeyPath.ofTexts ["x"]).toDoc = ['x'] := by
    rw [KeyPath.ofTexts, KeyPath.chars_toDoc, List.map_singleton, List.map_singleton,
      List.intercalate_singleton, StringLit.bare, StringLit.chars_unquoted]
    decide +kernel
  rw [plainX, ofPath, toDoc, docOf, subjectDocs, Doc.chars_concat]
  simp [hchars]

/-- The text of the file, from the documents of its two entries. -/
theorem toList_format_fileBeforeX (i : Indentation) (k : Key) :
    (k.fileBeforeX.format i).toList = Doc.chars i 0 (MapLit.fileDoc
      ((MapLit.arrange true false [⟨.key k, k.toDoc⟩, ⟨.key plainX, plainX.toDoc⟩]).flatMap
        Placed.docs)) := by
  rw [Node.format_eq_render, ← Doc.chars, fileBeforeX, Node.toDoc, Value.toDoc, MapLit.file,
    MapLit.toDoc, Node.entries, Node.entries, Node.entries, Node.toDoc, Node.toDoc]
  rfl

/-- An ordinary key stays in front of the key `x`. -/
theorem head?_format_of_ordinary (i : Indentation) {c : Char} (hrole : k.role = .ordinary)
    (hc : (Doc.chars i 0 k.toDoc).head? = some c) :
    (k.fileBeforeX.format i).toList.head? = some c := by
  obtain ⟨rest, hrest⟩ := MapLit.exists_arrange_of_ordinary ⟨.key k, k.toDoc⟩
    ⟨.key plainX, plainX.toDoc⟩ hrole rfl
  rw [toList_format_fileBeforeX, hrest]
  exact MapLit.head?_chars_fileDoc i hc

/-- A group of boards gives way to the key `x`. -/
theorem head?_format_of_ne_ordinary (i : Indentation) (hrole : k.role ≠ .ordinary) :
    (k.fileBeforeX.format i).toList.head? = some 'x' := by
  obtain ⟨rest, hrest⟩ := MapLit.exists_arrange_of_ne_ordinary ⟨.key k, k.toDoc⟩
    ⟨.key plainX, plainX.toDoc⟩ hrole rfl rfl
  rw [toList_format_fileBeforeX, hrest]
  exact MapLit.head?_chars_fileDoc i (head?_chars_plainX i)

end Key

/-- **The case of reserved words does not matter, except where it hides a group of
boards.**  A tree none of whose maps has a capital board among its entries keeps its
text when all of its reserved words are put in lower case.  A capital board, on the
other hand, moves when its name is put in lower case: the file that has it in front
of the key `x` does not keep its text. -/
theorem Node.format_canonical (i : Indentation) :
    (∀ node : Node, node.hasLowerBoards = true → node.canonical.format i = node.format i) ∧
      ∀ k : Key, k.isCapitalBoard = true →
        k.fileBeforeX.canonical.format i ≠ k.fileBeforeX.format i := by
  constructor
  · intro node h
    rw [Node.format, Node.format, Node.toDoc_canonical node h]
  · intro k h heq
    obtain ⟨c, hc, hne⟩ := Key.exists_head?_of_isCapitalBoard i h
    have hbefore := Key.head?_format_of_ordinary i (Key.role_of_isCapitalBoard h) hc
    have hafter := Key.head?_format_of_ne_ordinary i (Key.role_canonical_of_isCapitalBoard h)
    rw [← Key.canonical_fileBeforeX, heq, hbefore, Option.some.injEq] at hafter
    exact hne hafter

/-- The key `Layers: { a }`. -/
def Key.capitalLayers : Key :=
  ⟨none, some (.ofTexts ["Layers"]), [], none, none, none,
    some (.map (.scope [.key (.ofPath (.ofTexts ["a"]))])), .unset⟩

/-- On its own the key has the same text in lower case, for it is no entry of a map
there; in front of the key `x` it has not. -/
theorem Node.format_canonical_capitalLayers :
    ((Node.key Key.capitalLayers).hasLowerBoards = true ∧
      (Node.key Key.capitalLayers).canonical.format {} =
        (Node.key Key.capitalLayers).format {}) ∧
      Key.capitalLayers.isCapitalBoard = true ∧
      Key.capitalLayers.fileBeforeX.canonical.format {} ≠
        Key.capitalLayers.fileBeforeX.format {} :=
  have hlower : (Node.key Key.capitalLayers).hasLowerBoards = true := by decide +kernel
  have hcapital : Key.capitalLayers.isCapitalBoard = true := by decide +kernel
  ⟨⟨hlower, (Node.format_canonical {}).1 _ hlower⟩, hcapital,
    (Node.format_canonical {}).2 _ hcapital⟩

end DiagramText
