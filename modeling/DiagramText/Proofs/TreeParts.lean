import DiagramText.Layout.Node

/-!
# From the parts of a tree to its document

Many facts about the text of a tree have the same proof.  Something holds of what
each string, number or comment of the tree prints; putting documents together keeps
it; so it holds of the whole document.  The walk through the tree is the same each
time, and this file goes it once and for all.

* `Node.parts` lists the **parts** of a tree: its strings, whatever they stand in,
  the texts that are printed as they are, its comments, and the spans of its arrays
  and maps.  A condition on a tree is a condition on its parts, `∀ part ∈ node.parts,
  rule part`.
* `Part.Ensures rule P` lists what has to be shown about a property `P` of
  documents: that `++` keeps it (`Doc.Additive`), and that each kind of part has it if
  the part obeys the rule.  Keys, paths and edges do not appear in the list, since all
  that they add is punctuation (`plain`).  Substitutions, arrays and maps do, since
  they print brackets around what they hold and `P` may be false of a bracket.
* `Part.Ensures.node` is the conclusion: a tree whose parts obey the rule has a
  document with the property.

The order in which a map prints its entries is of no account here, only that what it
prints are its entries and what stands between them (`MapLit.forall_mem_docs`).
-/

namespace DiagramText

/-! ## Parts -/

/-- A part of a tree that a condition on the tree can be about. -/
inductive Part where
  /-- A string, as a value or as a segment of a path. -/
  | string (content : StringLit)
  /-- A number, printed as it is. -/
  | number (raw : String)
  /-- The directory of an import, printed as it is. -/
  | directory (name : String)
  /-- The head of an arrow, printed as it is. -/
  | arrow (head : String)
  | comment (content : Comment)
  | array (span : Span)
  | map (span : Span) (isFile : Bool)

mutual

/-- The parts of a string: the string, and those of its substitutions. -/
def StringLit.parts : StringLit → List Part
  | .unquoted pieces span => .string (.unquoted pieces span) :: Piece.parts pieces
  | .doubleQuoted pieces span => .string (.doubleQuoted pieces span) :: Piece.parts pieces
  | .singleQuoted content span => [.string (.singleQuoted content span)]
  | .block content => [.string (.block content)]

/-- The parts of the substitutions among some pieces. -/
def Piece.parts : List Piece → List Part
  | [] => []
  | .text _ :: rest => Piece.parts rest
  | .substitution reference :: rest => reference.parts ++ Piece.parts rest

/-- The parts of a substitution. -/
def Substitution.parts : Substitution → List Part
  | ⟨_, path, _⟩ => path.parts

/-- The parts of a key path. -/
def KeyPath.parts : KeyPath → List Part
  | ⟨segments, _⟩ => StringLit.segmentParts segments

/-- The parts of the segments of a key path. -/
def StringLit.segmentParts : List StringLit → List Part
  | [] => []
  | segment :: rest => segment.parts ++ StringLit.segmentParts rest

end

/-- The parts of a scalar. -/
def Scalar.parts : Scalar → List Part
  | .number raw _ => [.number raw]
  | .string content => content.parts
  | _ => []

/-- The parts of an import. -/
def Import.parts (file : Import) : List Part := .directory file.directory :: file.path.parts

/-- The parts of an edge. -/
def Edge.parts (e : Edge) : List Part :=
  .arrow e.sourceArrow :: .arrow e.targetArrow ::
    (e.source.toList.flatMap KeyPath.parts ++ e.target.toList.flatMap KeyPath.parts)

mutual

/-- The parts of a value. -/
def Value.parts : Value → List Part
  | .scalar content => content.parts
  | .imported file => file.parts
  | .array content => content.parts
  | .map content => content.parts

/-- The parts of an array. -/
def ArrayLit.parts : ArrayLit → List Part
  | ⟨nodes, span⟩ => .array span :: Node.entryParts nodes

/-- The parts of a map. -/
def MapLit.parts : MapLit → List Part
  | ⟨nodes, span, isFile⟩ => .map span isFile :: Node.entryParts nodes

/-- The parts of a key. -/
def Key.parts : Key → List Part
  | ⟨_, path, edges, _, edgePath, primary, value, _⟩ =>
      path.toList.flatMap KeyPath.parts ++ edges.flatMap Edge.parts ++
        edgePath.toList.flatMap KeyPath.parts ++ primary.toList.flatMap Scalar.parts ++
        Value.partsOption value

/-- The parts of the value of a key. -/
def Value.partsOption : Option Value → List Part
  | none => []
  | some value => value.parts

/-- The parts of a node. -/
def Node.parts : Node → List Part
  | .comment content => [.comment content]
  | .value content => content.parts
  | .substitution content => content.parts
  | .key content => content.parts
  | .keyPath content => content.parts
  | .edge content => content.parts
  | .edgeIndex _ => []

/-- The parts of the entries of an array or a map. -/
def Node.entryParts : List Node → List Part
  | [] => []
  | node :: rest => node.parts ++ Node.entryParts rest

end

/-! ## Characters of arrows and numbers -/

/-- An arrow is made of its heads and of hyphens. -/
theorem Edge.forall_mem_arrow {P : Char → Prop} (hhyphen : P '-') {e : Edge}
    (hsource : ∀ c ∈ e.sourceArrow.toList, P c) (htarget : ∀ c ∈ e.targetArrow.toList, P c) :
    ∀ c ∈ e.arrow.toList, P c := by
  have hone : ∀ c ∈ "-".toList, P c := List.forall_mem_singleton.mpr hhyphen
  rw [arrow]
  split
  · split
    · exact List.forall_mem_append.mpr ⟨hone, hone⟩
    · rw [String.toList_append, List.forall_mem_append]
      exact ⟨hone, htarget⟩
  · split
    · rw [String.toList_append, List.forall_mem_append]
      exact ⟨hsource, hone⟩
    · rw [String.toList_append, String.toList_append, List.forall_mem_append,
        List.forall_mem_append]
      exact ⟨⟨hsource, hone⟩, htarget⟩

/-- The number of an edge is written with digits. -/
theorem EdgeIndex.isDigit_of_mem_toString {n : Nat} {c : Char} (h : c ∈ (toString n).toList) :
    c.isDigit = true := by
  rw [Nat.toString_eq_repr, Nat.toList_repr] at h
  exact Nat.isDigit_of_mem_toDigits (by decide) (by decide) h

/-! ## What has to be shown -/

/-- Whether a character is neither a backslash nor a bracket nor a line feed. -/
def Text.isInert (c : Char) : Bool := !(['\\', '\x7b', '\x7d', '[', ']', '\n'].contains c)

/-- A property of documents that is kept when documents are put together. -/
structure Doc.Additive (P : Doc → Prop) : Prop where
  nil : P .nil
  append {a b : Doc} : P a → P b → P (a ++ b)

/-- A property of documents that a tree has if its parts obey a rule. -/
structure Part.Ensures (rule : Part → Prop) (P : Doc → Prop) : Prop extends Doc.Additive P where
  /-- Punctuation and the words with a fixed spelling. -/
  plain {s : String} : s.toList.all Text.isInert = true → P (.ofString s)
  unquoted (ctx : Context) (s : String) : P (.ofString (Escape.unquoted ctx s))
  unquotedPiece (ctx : Context) (opening : Bool) (s : String) :
    P (.ofString (Escape.unquotedPiece ctx opening s))
  doubleQuoted {pieces : List Piece} {span : Span} :
    rule (.string (.doubleQuoted pieces span)) →
      ∀ ctx s, P (.ofString (Escape.doubleQuoted ctx s))
  singleQuoted {content : String} {span : Span} :
    rule (.string (.singleQuoted content span)) → P (.ofString (Escape.singleQuoted content))
  block {content : BlockString} : rule (.string (.block content)) → P content.toDoc
  substitution {path : KeyPath} (spread : Bool) (span : Span) :
    P path.toDoc → P (Substitution.toDoc ⟨spread, path, span⟩)
  number {raw : String} : rule (.number raw) → P (.ofString raw)
  directory {name : String} : rule (.directory name) → P (.ofString name)
  arrow {e : Edge} :
    rule (.arrow e.sourceArrow) → rule (.arrow e.targetArrow) → P (.ofString e.arrow)
  edgeIndex (i : EdgeIndex) : P i.toDoc
  comment {content : Comment} : rule (.comment content) → P content.toDoc
  array {span : Span} {es : List Entry} :
    rule (.array span) → (∀ e ∈ es, P e.doc) → P (ArrayLit.docOf span es)
  map {span : Span} {isFile : Bool} {es : List Entry} :
    rule (.map span isFile) → (∀ e ∈ es, P e.doc) → P (MapLit.docOf span isFile es)

namespace Doc.Additive

variable {P : Doc → Prop}

theorem concat (h : Additive P) {ds : List Doc} (hds : ∀ d ∈ ds, P d) : P (.concat ds) :=
  List.foldlRecOn ds _ h.nil fun _ hdone d hd => h.append hdone (hds d hd)

theorem join (h : Additive P) {sep : Doc} {ds : List Doc} (hsep : P sep)
    (hds : ∀ d ∈ ds, P d) : P (.join sep ds) := by
  cases ds with
  | nil => exact h.nil
  | cons first others =>
      rw [List.forall_mem_cons] at hds
      exact List.foldlRecOn others _ hds.1 fun _ hdone d hd =>
        h.append (h.append hdone hsep) (hds.2 d hd)

theorem surround (h : Additive P) {opening content closing : Doc} (hopening : P opening)
    (hcontent : P content) (hclosing : P closing) : P (.surround opening content closing) :=
  h.append (h.append hopening hcontent) hclosing

end Doc.Additive

namespace Part.Ensures

variable {rule : Part → Prop} {P : Doc → Prop}

/-! ## Strings and paths -/

mutual

theorem string (h : Ensures rule P) (ctx : Context) :
    ∀ s : StringLit, (∀ part ∈ s.parts, rule part) → P (s.toDoc ctx)
  | .unquoted pieces span, hparts => by
      rw [StringLit.parts, List.forall_mem_cons] at hparts
      rw [StringLit.toDoc]
      cases Piece.wholeText? pieces with
      | some content => exact h.unquoted ctx _
      | none => exact h.concat (h.pieces (h.unquotedPiece ctx) true pieces hparts.2)
  | .doubleQuoted pieces span, hparts => by
      rw [StringLit.parts, List.forall_mem_cons] at hparts
      rw [StringLit.toDoc]
      refine h.surround (h.plain (by decide +kernel)) ?_ (h.plain (by decide +kernel))
      exact h.concat (h.pieces (fun _ => h.doubleQuoted hparts.1 ctx) true pieces hparts.2)
  | .singleQuoted content span, hparts => by
      rw [StringLit.parts, List.forall_mem_singleton] at hparts
      rw [StringLit.toDoc]
      exact h.surround (h.plain (by decide +kernel)) (h.singleQuoted hparts)
        (h.plain (by decide +kernel))
  | .block content, hparts => by
      rw [StringLit.parts, List.forall_mem_singleton] at hparts
      rw [StringLit.toDoc]
      exact h.block hparts

theorem pieces (h : Ensures rule P) {escape : Bool → String → String}
    (hescape : ∀ opening s, P (.ofString (escape opening s))) (opening : Bool) :
    ∀ pieces : List Piece, (∀ part ∈ Piece.parts pieces, rule part) →
      ∀ d ∈ Piece.docs escape opening pieces, P d
  | [], _ => by simp [Piece.docs]
  | .text content :: rest, hparts => by
      rw [Piece.parts] at hparts
      rw [Piece.docs]
      split
      · exact h.pieces hescape opening rest hparts
      · rw [List.forall_mem_cons]
        exact ⟨hescape opening content, h.pieces hescape false rest hparts⟩
  | .substitution reference :: rest, hparts => by
      rw [Piece.parts, List.forall_mem_append] at hparts
      rw [Piece.docs, List.forall_mem_cons]
      exact ⟨h.reference reference hparts.1, h.pieces hescape false rest hparts.2⟩

theorem reference (h : Ensures rule P) :
    ∀ s : Substitution, (∀ part ∈ s.parts, rule part) → P s.toDoc
  | ⟨spread, path, span⟩, hparts => by
      rw [Substitution.parts] at hparts
      exact h.substitution spread span (h.path path hparts)

theorem path (h : Ensures rule P) :
    ∀ path : KeyPath, (∀ part ∈ path.parts, rule part) → P path.toDoc
  | ⟨segments, span⟩, hparts => by
      rw [KeyPath.parts] at hparts
      rw [KeyPath.toDoc]
      exact h.join (h.plain (by decide +kernel)) (h.segments segments hparts)

theorem segments (h : Ensures rule P) :
    ∀ segments : List StringLit, (∀ part ∈ StringLit.segmentParts segments, rule part) →
      ∀ d ∈ StringLit.segmentDocs segments, P d
  | [], _ => by simp [StringLit.segmentDocs]
  | segment :: rest, hparts => by
      rw [StringLit.segmentParts, List.forall_mem_append] at hparts
      rw [StringLit.segmentDocs, List.forall_mem_cons]
      exact ⟨h.string .key segment hparts.1, h.segments rest hparts.2⟩

end

/-! ## Scalars, imports and edges -/

theorem paths (h : Ensures rule P) {paths : List KeyPath}
    (hparts : ∀ part ∈ paths.flatMap KeyPath.parts, rule part) : ∀ p ∈ paths, P p.toDoc := by
  intro p hp
  exact h.path p fun part hpart => hparts part (List.mem_flatMap_of_mem hp hpart)

theorem scalar (h : Ensures rule P) (s : Scalar) (hparts : ∀ part ∈ s.parts, rule part) :
    P s.toDoc := by
  cases s with
  | null span => exact h.plain (by decide +kernel)
  | suspension suspend span => cases suspend <;> exact h.plain (by decide +kernel)
  | boolean value span => cases value <;> exact h.plain (by decide +kernel)
  | number raw span =>
      rw [Scalar.parts, List.forall_mem_singleton] at hparts
      exact h.number hparts
  | string content => exact h.string .value content hparts

theorem imported (h : Ensures rule P) (file : Import) (hparts : ∀ part ∈ file.parts, rule part) :
    P file.toDoc := by
  rw [Import.parts, List.forall_mem_cons] at hparts
  refine h.concat ?_
  rw [List.forall_mem_append]
  constructor
  · cases file.spread
    · simp
    · rw [if_pos rfl, List.forall_mem_singleton]
      exact h.plain (by decide +kernel)
  · rw [List.forall_mem_cons, List.forall_mem_cons, List.forall_mem_singleton]
    exact ⟨h.plain (by decide +kernel), h.directory hparts.1, h.path file.path hparts.2⟩

theorem sourceDocs (h : Ensures rule P) {e : Edge} (hparts : ∀ part ∈ e.parts, rule part) :
    ∀ d ∈ e.sourceDocs, P d := by
  simp only [Edge.parts, List.forall_mem_cons, List.forall_mem_append] at hparts
  have hsource := h.paths hparts.2.2.1
  rw [Edge.sourceDocs]
  cases hpath : e.source with
  | none => simp
  | some path =>
      rw [List.forall_mem_cons, List.forall_mem_singleton]
      exact ⟨hsource path (by simp [hpath]), h.plain (by decide +kernel)⟩

theorem arrowDoc (h : Ensures rule P) {e : Edge} (hparts : ∀ part ∈ e.parts, rule part) :
    P e.arrowDoc := by
  simp only [Edge.parts, List.forall_mem_cons, List.forall_mem_append] at hparts
  have htarget := h.paths hparts.2.2.2
  have harrow : P (.ofString e.arrow) := h.arrow hparts.1 hparts.2.1
  rw [Edge.arrowDoc]
  cases hpath : e.target with
  | none => exact harrow
  | some path =>
      refine h.concat ?_
      rw [List.forall_mem_cons, List.forall_mem_cons, List.forall_mem_singleton]
      exact ⟨harrow, h.plain (by decide +kernel), htarget path (by simp [hpath])⟩

theorem edge (h : Ensures rule P) (e : Edge) (hparts : ∀ part ∈ e.parts, rule part) :
    P e.toDoc := by
  refine h.concat ?_
  rw [List.forall_mem_append, List.forall_mem_singleton]
  exact ⟨h.sourceDocs hparts, h.arrowDoc hparts⟩

theorem chain (h : Ensures rule P) {edges : List Edge}
    (hparts : ∀ part ∈ edges.flatMap Edge.parts, rule part) : P (Edge.chainDoc edges) := by
  cases edges with
  | nil => exact h.nil
  | cons first rest =>
      rw [List.flatMap_cons, List.forall_mem_append] at hparts
      refine h.concat ?_
      rw [List.forall_mem_append, List.forall_mem_append, List.forall_mem_singleton]
      refine ⟨⟨h.sourceDocs hparts.1, h.arrowDoc hparts.1⟩, ?_⟩
      rw [List.forall_mem_flatMap]
      intro e he
      rw [List.forall_mem_cons, List.forall_mem_singleton]
      refine ⟨h.plain (by decide +kernel), h.arrowDoc fun part hpart => ?_⟩
      exact hparts.2 part (List.mem_flatMap_of_mem he hpart)

/-! ## Keys -/

section Key

variable {path edgePath : Option KeyPath} {edges : List Edge}

theorem edgeDocs (h : Ensures rule P) (index : Option EdgeIndex)
    (hedges : ∀ part ∈ edges.flatMap Edge.parts, rule part) :
    ∀ d ∈ Key.edgeDocs path edges index edgePath, P d := by
  rw [Key.edgeDocs]
  split
  · simp
  · rw [List.forall_mem_append]
    constructor
    · split
      · rw [List.forall_mem_singleton]
        exact h.plain (by decide +kernel)
      · simp
    · split
      · rw [List.forall_mem_cons, List.forall_mem_cons, List.forall_mem_singleton]
        exact ⟨h.plain (by decide +kernel), h.chain hedges, h.plain (by decide +kernel)⟩
      · rw [List.forall_mem_singleton]
        exact h.chain hedges

theorem subjectDocs (h : Ensures rule P) (marker : Option Marker) (index : Option EdgeIndex)
    (hpath : ∀ p ∈ path.toList, P p.toDoc)
    (hedges : ∀ part ∈ edges.flatMap Edge.parts, rule part) :
    ∀ d ∈ Key.subjectDocs marker path edges index edgePath, P d := by
  rw [Key.subjectDocs]
  simp only [List.forall_mem_append, List.forall_mem_map]
  refine ⟨⟨⟨?_, hpath⟩, h.edgeDocs index hedges⟩, fun i _ => h.edgeIndex i⟩
  intro m _
  cases m <;> exact h.plain (by decide +kernel)

theorem fieldDocs (h : Ensures rule P) (subject : List Doc)
    (hpath : ∀ p ∈ edgePath.toList, P p.toDoc) : ∀ d ∈ Key.fieldDocs subject edgePath, P d := by
  cases edgePath with
  | none => simp [Key.fieldDocs]
  | some path =>
      rw [Key.fieldDocs, List.forall_mem_append, List.forall_mem_singleton]
      refine ⟨?_, hpath path (by simp)⟩
      split
      · simp
      · rw [List.forall_mem_singleton]
        exact h.plain (by decide +kernel)

theorem primaryDocs (h : Ensures rule P) {primary : Option Scalar}
    (hparts : ∀ part ∈ primary.toList.flatMap Scalar.parts, rule part) :
    ∀ d ∈ Key.primaryDocs primary, P d := by
  cases primary with
  | none => simp [Key.primaryDocs]
  | some content =>
      rw [Option.toList_some, List.flatMap_singleton] at hparts
      rw [Key.primaryDocs, List.forall_mem_cons, List.forall_mem_singleton]
      exact ⟨h.plain (by decide +kernel), h.scalar content hparts⟩

theorem valueDocs (h : Ensures rule P) (hasPrimary : Bool) {value : Option Doc}
    (hvalue : ∀ d ∈ value, P d) : ∀ d ∈ Key.valueDocs hasPrimary value, P d := by
  cases value with
  | none => simp [Key.valueDocs]
  | some doc =>
      rw [Key.valueDocs, List.forall_mem_cons, List.forall_mem_singleton]
      refine ⟨?_, hvalue doc rfl⟩
      cases hasPrimary <;> exact h.plain (by decide +kernel)

theorem keyDoc (h : Ensures rule P) (marker : Option Marker) (index : Option EdgeIndex)
    {primary : Option Scalar} {value : Option Doc}
    (hpath : ∀ part ∈ path.toList.flatMap KeyPath.parts, rule part)
    (hedges : ∀ part ∈ edges.flatMap Edge.parts, rule part)
    (hedgePath : ∀ part ∈ edgePath.toList.flatMap KeyPath.parts, rule part)
    (hprimary : ∀ part ∈ primary.toList.flatMap Scalar.parts, rule part)
    (hvalue : ∀ d ∈ value, P d) : P (Key.docOf marker path edges index edgePath primary value) := by
  refine h.concat ?_
  rw [List.forall_mem_append, List.forall_mem_append, List.forall_mem_append]
  exact ⟨⟨⟨h.subjectDocs marker index (h.paths hpath) hedges, h.fieldDocs _ (h.paths hedgePath)⟩,
    h.primaryDocs hprimary⟩, h.valueDocs _ hvalue⟩

end Key

/-! ## The walk through the tree -/

mutual

theorem value (h : Ensures rule P) :
    ∀ v : Value, (∀ part ∈ v.parts, rule part) → P v.toDoc
  | .scalar content, hparts => by
      rw [Value.parts] at hparts
      rw [Value.toDoc]
      exact h.scalar content hparts
  | .imported file, hparts => by
      rw [Value.parts] at hparts
      rw [Value.toDoc]
      exact h.imported file hparts
  | .array content, hparts => by
      rw [Value.parts] at hparts
      rw [Value.toDoc]
      exact h.arrayLit content hparts
  | .map content, hparts => by
      rw [Value.parts] at hparts
      rw [Value.toDoc]
      exact h.mapLit content hparts

theorem arrayLit (h : Ensures rule P) :
    ∀ content : ArrayLit, (∀ part ∈ content.parts, rule part) → P content.toDoc
  | ⟨nodes, span⟩, hparts => by
      rw [ArrayLit.parts, List.forall_mem_cons] at hparts
      rw [ArrayLit.toDoc]
      exact h.array hparts.1 (h.entries nodes hparts.2)

theorem mapLit (h : Ensures rule P) :
    ∀ content : MapLit, (∀ part ∈ content.parts, rule part) → P content.toDoc
  | ⟨nodes, span, isFile⟩, hparts => by
      rw [MapLit.parts, List.forall_mem_cons] at hparts
      rw [MapLit.toDoc]
      exact h.map hparts.1 (h.entries nodes hparts.2)

theorem key (h : Ensures rule P) :
    ∀ k : Key, (∀ part ∈ k.parts, rule part) → P k.toDoc
  | ⟨marker, path, edges, index, edgePath, primary, value, span⟩, hparts => by
      simp only [Key.parts, List.forall_mem_append] at hparts
      obtain ⟨⟨⟨⟨hpath, hedges⟩, hedgePath⟩, hprimary⟩, hvalue⟩ := hparts
      rw [Key.toDoc]
      exact h.keyDoc marker index hpath hedges hedgePath hprimary (h.printed value hvalue)

theorem printed (h : Ensures rule P) :
    ∀ value : Option Value, (∀ part ∈ Value.partsOption value, rule part) →
      ∀ d ∈ Value.printed? value, P d
  | none, _ => by simp [Value.printed?]
  | some v, hparts => by
      rw [Value.partsOption] at hparts
      rw [Value.printed?]
      split
      · simp
      · rintro d ⟨⟩
        exact h.value v hparts

/-- **A tree whose parts obey the rule has a document with the property.** -/
theorem node (h : Ensures rule P) :
    ∀ node : Node, (∀ part ∈ node.parts, rule part) → P node.toDoc
  | .comment content, hparts => by
      rw [Node.parts, List.forall_mem_singleton] at hparts
      rw [Node.toDoc]
      exact h.comment hparts
  | .value content, hparts => by
      rw [Node.parts] at hparts
      rw [Node.toDoc]
      exact h.value content hparts
  | .substitution content, hparts => by
      rw [Node.parts] at hparts
      rw [Node.toDoc]
      exact h.reference content hparts
  | .key content, hparts => by
      rw [Node.parts] at hparts
      rw [Node.toDoc]
      exact h.key content hparts
  | .keyPath content, hparts => by
      rw [Node.parts] at hparts
      rw [Node.toDoc]
      exact h.path content hparts
  | .edge content, hparts => by
      rw [Node.parts] at hparts
      rw [Node.toDoc]
      exact h.edge content hparts
  | .edgeIndex content, _ => by
      rw [Node.toDoc]
      exact h.edgeIndex content

theorem entries (h : Ensures rule P) :
    ∀ nodes : List Node, (∀ part ∈ Node.entryParts nodes, rule part) →
      ∀ e ∈ Node.entries nodes, P e.doc
  | [], _ => by simp [Node.entries]
  | node :: rest, hparts => by
      rw [Node.entryParts, List.forall_mem_append] at hparts
      rw [Node.entries, List.forall_mem_cons]
      exact ⟨h.node node hparts.1, h.entries rest hparts.2⟩

end

end Part.Ensures

/-- If texts of every kind have the property, it is left to show for what prints line breaks. -/
theorem Part.Ensures.of_texts {rule : Part → Prop} {P : Doc → Prop} (hadditive : Doc.Additive P)
    (htext : ∀ s, P (.ofString s))
    (hblock : ∀ content : BlockString, rule (.string (.block content)) → P content.toDoc)
    (hcomment : ∀ content : Comment, rule (.comment content) → P content.toDoc)
    (harray : ∀ {span : Span} {es : List Entry}, rule (.array span) → (∀ e ∈ es, P e.doc) →
      P (ArrayLit.docOf span es))
    (hmap : ∀ {span : Span} {isFile : Bool} {es : List Entry}, rule (.map span isFile) →
      (∀ e ∈ es, P e.doc) → P (MapLit.docOf span isFile es)) : Part.Ensures rule P where
  toAdditive := hadditive
  plain _ := htext _
  unquoted _ _ := htext _
  unquotedPiece _ _ _ := htext _
  doubleQuoted _ _ _ := htext _
  singleQuoted _ := htext _
  block := hblock _
  substitution spread span hpath := by
    rw [Substitution.toDoc]
    refine hadditive.concat ?_
    rw [List.forall_mem_append, List.forall_mem_cons, List.forall_mem_cons,
      List.forall_mem_singleton]
    refine ⟨?_, htext _, hpath, htext _⟩
    cases spread
    · simp
    · rw [if_pos rfl, List.forall_mem_singleton]
      exact htext _
  number _ := htext _
  directory _ := htext _
  arrow _ _ := htext _
  edgeIndex i := by
    rw [EdgeIndex.toDoc]
    split <;> exact htext _
  comment := hcomment _
  array := harray
  map := hmap

/-- A block has the property if texts have it and the block has it when it is spread over
several lines. -/
theorem BlockString.forall_toDoc_of_texts {P : Doc → Prop} (hadditive : Doc.Additive P)
    (htext : ∀ s, P (.ofString s)) (b : BlockString)
    (hspread : b.isSpread = true → P (.ofString b.openFence ++
      (Doc.concat (Doc.onNewLines b.content)).nest ++ .hardLine ++ .ofString b.closeFence)) :
    P b.toDoc := by
  have happend := @hadditive.append
  rw [toDoc]
  split
  · exact hspread ‹_›
  · split
    · exact happend (happend (htext _) (htext _)) (htext _)
    · exact happend (happend (happend (happend (htext _) (htext _)) (htext _)) (htext _)) (htext _)

/-! ## The entries that an array or a map prints -/

/-- A property of everything that can stand between the entries of an array or a map. -/
structure Doc.Spacing (P : Doc → Prop) : Prop where
  space : P (.ofString " ")
  semicolon : P (.ofString "; ")
  hardLine : P .hardLine
  bareLine : P .bareLine

section Spacing

variable {P : Doc → Prop}

theorem Separator.forall_mem_docs (hspacing : Doc.Spacing P) (separator : Separator) :
    ∀ d ∈ separator.docs, P d := by
  cases separator with
  | nothing => simp [docs]
  | semicolon =>
      rw [docs, List.forall_mem_singleton]
      exact hspacing.semicolon
  | newline =>
      rw [docs, List.forall_mem_singleton]
      exact hspacing.hardLine
  | blankLine =>
      rw [docs, List.forall_mem_cons, List.forall_mem_singleton]
      exact ⟨hspacing.bareLine, hspacing.hardLine⟩

theorem Item.forall_mem_docs (hspace : P (.ofString " ")) {item : Item}
    (hentry : ∀ e ∈ item.entries, P e.doc) : ∀ d ∈ item.docs, P d := by
  rw [Item.entries, List.forall_mem_cons] at hentry
  rw [Item.docs]
  cases hcomment : item.trailing with
  | none =>
      rw [List.forall_mem_singleton]
      exact hentry.1
  | some comment =>
      rw [List.forall_mem_cons, List.forall_mem_cons, List.forall_mem_singleton]
      exact ⟨hentry.1, hspace, hentry.2 comment (by simp [hcomment])⟩

/-- A row has a property if its entries and the separators that occur in it have it. -/
theorem Placed.forall_mem_docs_of_separators (hspace : P (.ofString " ")) {placed : List Placed}
    (hseparator : ∀ p ∈ placed, ∀ d ∈ p.separator.docs, P d)
    (hentry : ∀ p ∈ placed, ∀ e ∈ p.item.entries, P e.doc) :
    ∀ d ∈ placed.flatMap Placed.docs, P d := by
  rw [List.forall_mem_flatMap]
  intro p hp
  rw [Placed.docs, List.forall_mem_append]
  exact ⟨hseparator p hp, Item.forall_mem_docs hspace (hentry p hp)⟩

theorem Placed.forall_mem_docs (hspacing : Doc.Spacing P) {placed : List Placed}
    (hentry : ∀ p ∈ placed, ∀ e ∈ p.item.entries, P e.doc) :
    ∀ d ∈ placed.flatMap Placed.docs, P d :=
  forall_mem_docs_of_separators hspacing.space
    (fun p _ => p.separator.forall_mem_docs hspacing) hentry

end Spacing

/-- The entries that an array prints are its entries. -/
theorem ArrayLit.mem_of_mem_arrange {oneLine : Bool} {es : List Entry} {p : Placed}
    (hp : p ∈ arrange oneLine es) {e : Entry} (he : e ∈ p.item.entries) : e ∈ es := by
  have hitems : (arrange oneLine es).map Placed.item =
      Item.group (fun _ => .ordinary) (!oneLine) none es := by
    rw [arrange]
    cases oneLine <;> simp
  have hitem : p.item ∈ Item.group (fun _ => .ordinary) (!oneLine) none es := by
    rw [← hitems]
    exact List.mem_map_of_mem hp
  rw [← Item.flatMap_entries_group (fun _ => .ordinary) (!oneLine) none es]
  exact List.mem_flatMap_of_mem hitem he

/-- What an array prints between its brackets has a property, if its entries and all that
can stand between them have it. -/
theorem ArrayLit.forall_mem_docs {P : Doc → Prop} (hspacing : Doc.Spacing P) {oneLine : Bool}
    {es : List Entry} (h : ∀ e ∈ es, P e.doc) :
    ∀ d ∈ (arrange oneLine es).flatMap Placed.docs, P d :=
  Placed.forall_mem_docs hspacing fun _ hp e he => h e (mem_of_mem_arrange hp he)

/-- The entries that a map prints are among its entries. -/
theorem MapLit.mem_of_mem_arrange {isFile oneLine : Bool} {es : List Entry} {p : Placed}
    (hp : p ∈ arrange isFile oneLine es) {e : Entry} (he : e ∈ p.item.entries) : e ∈ es := by
  have hitem : p.item ∈ ordinaryItems (items oneLine es) ++ boardItems (items oneLine es) := by
    rw [← map_item_arrange isFile oneLine es]
    exact List.mem_map_of_mem hp
  have hmem : p.item ∈ items oneLine es := by
    rcases List.mem_append.mp hitem with h | h
    · exact (List.mem_filter.mp h).1
    · exact ((BoardKind.mem_gather _ _ _).mp h).1
  rw [← Item.flatMap_entries_group Node.role (!oneLine) none es]
  exact List.mem_flatMap_of_mem hmem he

/-- What a map prints has a property, if its entries and all that can stand between them
have it. -/
theorem MapLit.forall_mem_docs {P : Doc → Prop} (hspacing : Doc.Spacing P)
    {isFile oneLine : Bool} {es : List Entry} (h : ∀ e ∈ es, P e.doc) :
    ∀ d ∈ (arrange isFile oneLine es).flatMap Placed.docs, P d :=
  Placed.forall_mem_docs hspacing fun _ hp e he => h e (mem_of_mem_arrange hp he)

end DiagramText
