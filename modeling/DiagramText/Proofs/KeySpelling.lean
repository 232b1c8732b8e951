import DiagramText.Proofs.KeyText

/-!
# The text of a key, from the texts of its parts

A key can be put together from its punctuation and the texts that its parts have as nodes on
their own.  `Key.spelling` says how, and **this is the text of the key**
(`Key.format_key_eq_spelling`).  So no part of a key has a say in how another one is written.

The spelling asks the layout for nothing.  Marks, connectors, indices and parentheses are
written out in it, and the texts of the parts are given to it.

There is one place where a part depends on what stands before it: the dot in front of the path
of a field.  The layout asks there whether there are documents, the spelling whether there is a
text.  It comes to the same, because everything in front of a field that has a document prints
something (`Key.isEmpty_subjectSpelling`).  A path prints nothing only if it has no segments,
an arrow is never without a character, and a mark and an index have theirs.
-/

namespace DiagramText

/-! ## Spelling a key -/

section Spelling

variable (text : Node → String)

/-- The connector of an edge: on either side the head that stands there, or a hyphen if there is
none, and a hyphen between two heads. -/
def Edge.connectorSpelling (e : Edge) : String :=
  (if e.sourceArrow = "" then "-" else e.sourceArrow) ++
    (if e.sourceArrow ≠ "" ∧ e.targetArrow ≠ "" then "-" else "") ++
    (if e.targetArrow = "" then "-" else e.targetArrow)

/-- A connector and the path that it leads to. -/
def Edge.arrowSpelling (e : Edge) : String :=
  e.connectorSpelling ++ e.target.elim "" fun path => " " ++ text (.keyPath path)

/-- A chain of edges: the path where it starts, and the arrows with their paths. -/
def Edge.chainSpelling (edges : List Edge) : String :=
  ((edges.head?.bind source).elim "" fun path => text (.keyPath path) ++ " ") ++
    " ".intercalate (edges.map (arrowSpelling text))

namespace Key

variable (k : Key)

/-- The mark in front of a key. -/
def markerSpelling : String :=
  match k.marker with
  | none => ""
  | some .filter => "&"
  | some .negatedFilter => "!&"

/-- The edges of a key.  They stand in parentheses if there is a path in front of them, or an
index or the path of a field behind them. -/
def edgesSpelling : String :=
  if k.edges.isEmpty then ""
  else
    (if k.path.isSome then "." else "") ++
      (if k.path.isSome || k.edgeIndex.isSome || k.edgePath.isSome then
        "(" ++ Edge.chainSpelling text k.edges ++ ")"
      else Edge.chainSpelling text k.edges)

/-- The index of the edges of a key. -/
def indexSpelling : String :=
  match k.edgeIndex with
  | none => ""
  | some ⟨none, _⟩ => "[*]"
  | some ⟨some n, _⟩ => "[" ++ toString n ++ "]"

/-- A key up to the path of a field of its edges. -/
def subjectSpelling : String :=
  k.markerSpelling ++ (k.path.elim "" fun path => text (.keyPath path)) ++
    k.edgesSpelling text ++ k.indexSpelling

/-- The path of a field, with a dot in front of it unless nothing stands there. -/
def fieldSpelling : String :=
  k.edgePath.elim "" fun path =>
    (if (k.subjectSpelling text).isEmpty then "" else ".") ++ text (.keyPath path)

/-- The short value of a key. -/
def primarySpelling : String :=
  k.primary.elim "" fun content => ": " ++ text (.ofScalar content)

/-- The value of a key, unless it is a map without entries. -/
def valueSpelling : String :=
  match k.value with
  | none => ""
  | some (.map ⟨[], _, _⟩) => ""
  | some v => (if k.primary.isSome then " " else ": ") ++ text (.ofValue v)

/-- **A key, put together from its punctuation and the texts of its parts**, each part a node
on its own. -/
def spelling : String :=
  k.subjectSpelling text ++ k.fieldSpelling text ++ k.primarySpelling text ++ k.valueSpelling text

end Key

end Spelling

/-! ## The parts of the spelling, as they are laid out -/

section Text

variable (i : Indentation)

/-- A connector is written out as it is laid out. -/
theorem Edge.connectorSpelling_eq_arrow (e : Edge) : e.connectorSpelling = e.arrow := by
  by_cases hsource : e.sourceArrow = "" <;> by_cases htarget : e.targetArrow = "" <;>
    simp [connectorSpelling, arrow, hsource, htarget]

theorem Edge.toList_arrowSpelling (e : Edge) :
    (e.arrowSpelling (Node.format i)).toList = Doc.chars i 0 e.arrowDoc := by
  rw [arrowSpelling, connectorSpelling_eq_arrow, arrowDoc]
  cases e.target with
  | none => simp
  | some path => simp [Doc.chars_concat, Node.toList_format, Node.toDoc]

theorem Edge.toList_chainSpelling (edges : List Edge) :
    (chainSpelling (Node.format i) edges).toList = Doc.chars i 0 (chainDoc edges) := by
  cases edges with
  | nil => simp [chainSpelling, chainDoc]
  | cons first rest =>
      have hrest : (" ".intercalate ((first :: rest).map (arrowSpelling (Node.format i)))).toList =
          Doc.chars i 0 first.arrowDoc ++
            rest.flatMap fun e => ' ' :: Doc.chars i 0 e.arrowDoc := by
        rw [String.toList_intercalate, List.map_map, List.map_cons, Text.intercalate_cons_eq,
          List.flatMap_map, Function.comp_apply, toList_arrowSpelling]
        refine congrArg _ (List.flatMap_congr fun e _ => ?_)
        rw [Function.comp_apply, toList_arrowSpelling]
        rfl
      rw [chainSpelling, String.toList_append, hrest, chainDoc, Doc.chars_concat]
      cases hsource : first.source with
      | none => simp [sourceDocs, hsource, List.flatMap_assoc]
      | some path =>
          simp [sourceDocs, hsource, List.flatMap_assoc, Node.toList_format, Node.toDoc]

/-! ## What prints nothing -/

/-- A value that is not a map without entries is printed. -/
theorem Value.isEmptyMap_eq_false (v : Value)
    (h : ∀ span isFile, v = .map ⟨[], span, isFile⟩ → False) : v.isEmptyMap = false := by
  cases v with
  | map content =>
      obtain ⟨nodes, span, isFile⟩ := content
      cases nodes with
      | nil => exact (h span isFile rfl).elim
      | cons node rest => rfl
  | _ => rfl

/-- A path prints nothing only if it has no segments. -/
theorem KeyPath.toDoc_eq_nil_of_chars (path : KeyPath) (h : Doc.chars i 0 path.toDoc = []) :
    path.toDoc = .nil := by
  obtain ⟨segments, span⟩ := path
  cases segments with
  | nil => rw [KeyPath.toDoc, StringLit.segmentDocs, Doc.join_nil]
  | cons first others =>
      have hhead : (KeyPath.mk (first :: others) span).segments.head? = some first := rfl
      exact absurd h (KeyPath.chars_toDoc_ne_nil i 0 hhead)

/-- Every arrow prints something. -/
theorem Edge.chars_arrowDoc_ne_nil (e : Edge) : Doc.chars i 0 e.arrowDoc ≠ [] := by
  have harrow : e.arrow.toList ≠ [] := by
    rw [arrow]
    split
    · split <;> simp
    · split <;> simp
  rw [← toList_arrowSpelling, arrowSpelling, connectorSpelling_eq_arrow, String.toList_append]
  exact List.append_ne_nil_of_left_ne_nil harrow _

/-- A chain prints something if it has an edge. -/
theorem Edge.chars_chainDoc_ne_nil {edges : List Edge} (h : edges ≠ []) :
    Doc.chars i 0 (chainDoc edges) ≠ [] := by
  obtain ⟨first, rest, rfl⟩ := List.exists_cons_of_ne_nil h
  rw [chainDoc, Doc.chars_concat]
  simp [first.chars_arrowDoc_ne_nil i]

/-- The edges of a key print something wherever they have a document. -/
theorem Key.chars_ne_nil_of_mem_edgeDocs (path : Option KeyPath) (edges : List Edge)
    (index : Option EdgeIndex) (edgePath : Option KeyPath) :
    ∀ d ∈ edgeDocs path edges index edgePath, Doc.chars i 0 d ≠ [] := by
  rw [edgeDocs]
  split
  · simp
  · rename_i hedges
    have hchain := Edge.chars_chainDoc_ne_nil i (by simpa using hedges : edges ≠ [])
    rw [List.forall_mem_append]
    constructor
    · split <;> simp
    · split <;> simp [hchain]

namespace Key

variable (k : Key)

theorem toList_edgesSpelling :
    (k.edgesSpelling (Node.format i)).toList =
      (edgeDocs k.path k.edges k.edgeIndex k.edgePath).flatMap (Doc.chars i 0) := by
  rw [edgesSpelling, edgeDocs]
  split
  · rfl
  · rw [String.toList_append, List.flatMap_append]
    congr 1
    · split <;> simp
    · rw [isScoped]
      split <;> simp [Edge.toList_chainSpelling]

theorem toList_markerSpelling :
    k.markerSpelling.toList =
      (k.marker.toList.map fun m => .ofString m.text).flatMap (Doc.chars i 0) := by
  rw [markerSpelling]
  cases k.marker with
  | none => rfl
  | some marker => cases marker <;> simp [Marker.text]

theorem toList_indexSpelling :
    k.indexSpelling.toList = (k.edgeIndex.toList.map EdgeIndex.toDoc).flatMap (Doc.chars i 0) := by
  rw [indexSpelling]
  cases k.edgeIndex with
  | none => rfl
  | some index =>
      obtain ⟨number, span⟩ := index
      cases number <;> simp [EdgeIndex.toDoc]

theorem toList_subjectSpelling :
    (k.subjectSpelling (Node.format i)).toList =
      (subjectDocs k.marker k.path k.edges k.edgeIndex k.edgePath).flatMap (Doc.chars i 0) := by
  rw [subjectSpelling, subjectDocs, String.toList_append, String.toList_append,
    String.toList_append, toList_edgesSpelling, List.flatMap_append, List.flatMap_append,
    List.flatMap_append]
  congr 2
  · congr 1
    · rw [toList_markerSpelling]
    · cases k.path <;> simp [Node.toList_format, Node.toDoc]
  · rw [toList_indexSpelling i]

/-- What a key has in front of the path of a field prints nothing only if there is nothing. -/
theorem eq_nil_of_mem_subjectDocs {d : Doc}
    (hd : d ∈ subjectDocs k.marker k.path k.edges k.edgeIndex k.edgePath)
    (hchars : Doc.chars i 0 d = []) : d = .nil := by
  simp only [subjectDocs, List.mem_append, List.mem_map] at hd
  rcases hd with ((⟨marker, -, rfl⟩ | ⟨path, -, rfl⟩) | hd) | ⟨index, -, rfl⟩
  · cases marker <;> simp [Marker.text] at hchars
  · exact path.toDoc_eq_nil_of_chars i hchars
  · exact absurd hchars (chars_ne_nil_of_mem_edgeDocs i k.path k.edges k.edgeIndex k.edgePath d hd)
  · exact absurd hchars (index.chars_toDoc_ne_nil i 0)

/-- The text in front of the path of a field is empty exactly if there is nothing. -/
theorem isEmpty_subjectSpelling :
    (k.subjectSpelling (Node.format i)).isEmpty =
      Doc.allNil (subjectDocs k.marker k.path k.edges k.edgeIndex k.edgePath) := by
  rw [Bool.eq_iff_iff, String.isEmpty_iff, ← String.toList_eq_nil_iff, toList_subjectSpelling,
    List.flatMap_eq_nil_iff, Doc.allNil_iff]
  constructor
  · intro h d hd
    exact k.eq_nil_of_mem_subjectDocs i hd (h d hd)
  · intro h d hd
    rw [h d hd, Doc.chars_nil]

theorem toList_fieldSpelling :
    (k.fieldSpelling (Node.format i)).toList =
      (fieldDocs (subjectDocs k.marker k.path k.edges k.edgeIndex k.edgePath)
        k.edgePath).flatMap (Doc.chars i 0) := by
  rw [fieldSpelling, isEmpty_subjectSpelling, fieldDocs.eq_def]
  cases k.edgePath with
  | none => rfl
  | some path =>
      rw [Option.elim_some, String.toList_append, List.flatMap_append, Node.toList_format]
      congr 1
      · split <;> simp
      · simp [Node.toDoc]

theorem toList_primarySpelling :
    (k.primarySpelling (Node.format i)).toList =
      (primaryDocs k.primary).flatMap (Doc.chars i 0) := by
  rw [primarySpelling, flatMap_chars_primaryDocs]
  cases k.primary <;> simp [Node.toList_format, Node.ofScalar_eq, Node.toDoc, Value.toDoc]

theorem toList_valueSpelling :
    (k.valueSpelling (Node.format i)).toList =
      (valueDocs k.primary.isSome (Value.printed? k.value)).flatMap (Doc.chars i 0) := by
  rw [valueSpelling]
  split
  · rename_i hvalue
    rw [hvalue]
    rfl
  · rename_i hvalue
    rw [hvalue]
    rfl
  · rename_i v hnonempty hvalue
    have hprinted : v.isEmptyMap = false := v.isEmptyMap_eq_false hnonempty
    rw [hvalue, Value.printed?, hprinted, if_neg Bool.false_ne_true, String.toList_append,
      Node.toList_format, Node.ofValue_eq, Node.toDoc]
    simp [valueDocs]

/-- **The text of a key is put together from the texts of its parts.** -/
theorem format_key_eq_spelling : (Node.key k).format i = k.spelling (Node.format i) := by
  apply String.toList_injective
  obtain ⟨marker, path, edges, index, edgePath, primary, value, span⟩ := k
  rw [Node.toList_format, Node.toDoc, toDoc, docOf, Doc.chars_concat, List.flatMap_append,
    List.flatMap_append, List.flatMap_append, spelling, String.toList_append,
    String.toList_append, String.toList_append, toList_subjectSpelling, toList_fieldSpelling,
    toList_primarySpelling, toList_valueSpelling]

/-- The same text bears a backslash as a key, and none as the value that follows the key. -/
example :
    (Node.key { Key.ofPath (.ofTexts ["x.y"]) with
      value := some (.scalar (.string (.bare "x.y"))) }).format {} = "x\\.y: x.y" := by
  decide +kernel

end Key

end Text

end DiagramText
