import DiagramText.Format
import DiagramText.Proofs.SameLayout

/-!
# Moving a tree to another place of its source

A tree remembers where each of its pieces was written, and its layout follows the
source.  But it follows distances only: whether a piece starts and ends on one line,
whether a comment stands on the last line of an entry, and how many lines lie between
two entries.  So a tree that is moved down by some lines has the same text.  Columns
and offsets may be changed at will, each on its own.

One thing is asked of a span besides distances, namely whether it is the unset one, and
that is a question about the place itself.  It is asked of block strings and of block
comments.  For the others it does not matter: an unset map is a map on one line like
any other.

`Node.Moved k` relates a tree to the trees that are made from it by moving it down by
`k` lines.  It is a relation and not a function because the new columns and offsets are
arbitrary.  **Trees that are moved keep their documents** (`Node.toDoc_moved`): strings,
since the text of a tree is not touched; keys, since they depend on the documents of
what they are made of (`Key.docOf_congr`); and arrays and maps, since their entries are
alike up to a shift (`MapLit.docOf_congr`).
-/

namespace DiagramText

/-- Lists that are related one by one are both empty or neither is. -/
theorem isEmpty_eq_of_forall₂ {α : Type} {R : α → α → Prop} {as bs : List α}
    (h : List.Forall₂ R as bs) : bs.isEmpty = as.isEmpty := by
  cases h <;> rfl

/-- Optional things that are related have the same image, if things that are related
have. -/
theorem map_eq_of_rel {α β : Type} {R : α → α → Prop} {f : α → β}
    (hf : ∀ a b, R a b → f b = f a) {a b : Option α} (h : Option.Rel R a b) :
    b.map f = a.map f := by
  cases h with
  | none => rfl
  | some hab => exact congrArg some (hf _ _ hab)

/-! ## Spans, blocks and comments -/

/-- The second span is the first, moved down by `k` lines.  Nothing is said about
columns and bytes. -/
structure Span.Moved (k : Nat) (s s' : Span) : Prop where
  start : s'.start.line = s.start.line + k
  stop : s'.stop.line = s.stop.line + k

theorem Span.Moved.isOneLine_eq {k : Nat} {s s' : Span} (h : s.Moved k s') :
    s'.isOneLine = s.isOneLine := by
  rw [isOneLine, isOneLine, h.start, h.stop, Bool.eq_iff_iff, beq_iff_eq, beq_iff_eq]
  omega

/-- The second block is the first, moved down by `k` lines, and stands in a source if
the first does. -/
structure BlockString.Moved (k : Nat) (b b' : BlockString) : Prop where
  text : b'.text = b.text
  tag : b'.tag = b.tag
  quote : b'.quote = b.quote
  span : b.span.Moved k b'.span
  isUnset : b'.span.isUnset = b.span.isUnset

theorem BlockString.toDoc_moved {k : Nat} {b b' : BlockString} (h : b.Moved k b') :
    b'.toDoc = b.toDoc := by
  have hcontent : b'.content = b.content := by
    rw [content, content, h.isUnset, h.text]
  have hspread : b'.isSpread = b.isSpread := by
    rw [isSpread, isSpread, h.isUnset, h.text, h.span.isOneLine_eq]
  have hquote : b'.safeQuote = b.safeQuote := by
    rw [safeQuote, safeQuote, hcontent, h.quote]
  rw [toDoc, toDoc, openFence, openFence, closeFence, closeFence, hquote, h.tag, hspread, hcontent]

/-- The second comment is the first, moved down by `k` lines.  If it is a block
comment, it stands in a source if the first does. -/
structure Comment.Moved (k : Nat) (c c' : Comment) : Prop where
  style : c'.style = c.style
  text : c'.text = c.text
  span : c.span.Moved k c'.span
  isUnset : c.style = .block → c'.span.isUnset = c.span.isUnset

theorem Comment.toDoc_moved {k : Nat} {c c' : Comment} (h : c.Moved k c') :
    c'.toDoc = c.toDoc := by
  rw [toDoc, toDoc, h.style, h.text]
  cases hstyle : c.style with
  | line => rfl
  | block =>
      have hinline : c'.isInline = c.isInline := by
        rw [isInline, isInline, h.isUnset hstyle, h.text, h.span.isOneLine_eq]
      rw [hinline]

/-! ## Strings and paths -/

mutual

/-- The second string is the first, moved down by `k` lines. -/
inductive StringLit.Moved (k : Nat) : StringLit → StringLit → Prop
  | unquoted {pieces pieces' : List Piece} {span span' : Span}
      (hpieces : List.Forall₂ (Piece.Moved k) pieces pieces') (hspan : span.Moved k span') :
      StringLit.Moved k (.unquoted pieces span) (.unquoted pieces' span')
  | doubleQuoted {pieces pieces' : List Piece} {span span' : Span}
      (hpieces : List.Forall₂ (Piece.Moved k) pieces pieces') (hspan : span.Moved k span') :
      StringLit.Moved k (.doubleQuoted pieces span) (.doubleQuoted pieces' span')
  | singleQuoted (content : String) {span span' : Span} (hspan : span.Moved k span') :
      StringLit.Moved k (.singleQuoted content span) (.singleQuoted content span')
  | block {content content' : BlockString} (hblock : content.Moved k content') :
      StringLit.Moved k (.block content) (.block content')

/-- The second piece is the first, moved down by `k` lines. -/
inductive Piece.Moved (k : Nat) : Piece → Piece → Prop
  | text (content : String) : Piece.Moved k (.text content) (.text content)
  | substitution {reference reference' : Substitution}
      (hreference : Substitution.Moved k reference reference') :
      Piece.Moved k (.substitution reference) (.substitution reference')

/-- The second substitution is the first, moved down by `k` lines. -/
inductive Substitution.Moved (k : Nat) : Substitution → Substitution → Prop
  | mk (spread : Bool) {path path' : KeyPath} {span span' : Span}
      (hpath : KeyPath.Moved k path path') (hspan : span.Moved k span') :
      Substitution.Moved k ⟨spread, path, span⟩ ⟨spread, path', span'⟩

/-- The second path is the first, moved down by `k` lines. -/
inductive KeyPath.Moved (k : Nat) : KeyPath → KeyPath → Prop
  | mk {segments segments' : List StringLit} {span span' : Span}
      (hsegments : List.Forall₂ (StringLit.Moved k) segments segments')
      (hspan : span.Moved k span') : KeyPath.Moved k ⟨segments, span⟩ ⟨segments', span'⟩

end

variable {k : Nat}

namespace Piece

theorem Moved.isEmpty_eq {piece piece' : Piece} (h : piece.Moved k piece') :
    piece'.isEmpty = piece.isEmpty := by
  cases h <;> rfl

/-- Moved pieces come to the same text. -/
theorem wholeText?_moved {pieces pieces' : List Piece}
    (h : List.Forall₂ (Moved k) pieces pieces') : wholeText? pieces' = wholeText? pieces := by
  have hempty : pieces'.all isEmpty = pieces.all isEmpty := by
    induction h with
    | nil => rfl
    | cons hpiece _ ih => rw [List.all_cons, List.all_cons, ih, hpiece.isEmpty_eq]
  cases h with
  | nil => rfl
  | cons hpiece hrest =>
      cases hrest with
      | nil =>
          cases hpiece with
          | text content => rfl
          | substitution hreference => rfl
      | cons hnext hrest =>
          rw [wholeText?, wholeText?, hempty]
          · simp
          · simp

end Piece

mutual

theorem StringLit.toDoc_moved (ctx : Context) :
    ∀ s s' : StringLit, s.Moved k s' → s'.toDoc ctx = s.toDoc ctx
  | .unquoted pieces span, _, h => by
      cases h with
      | unquoted hpieces hspan =>
          rw [StringLit.toDoc, StringLit.toDoc, Piece.wholeText?_moved hpieces,
            Piece.docs_moved _ true pieces _ hpieces]
  | .doubleQuoted pieces span, _, h => by
      cases h with
      | doubleQuoted hpieces hspan =>
          rw [StringLit.toDoc, StringLit.toDoc, Piece.docs_moved _ true pieces _ hpieces]
  | .singleQuoted content span, _, h => by
      cases h
      rw [StringLit.toDoc, StringLit.toDoc]
  | .block content, _, h => by
      cases h with
      | block hblock => rw [StringLit.toDoc, StringLit.toDoc, BlockString.toDoc_moved hblock]
termination_by structural s => s

theorem Piece.docs_moved (escape : Bool → String → String) (opening : Bool) :
    ∀ pieces pieces' : List Piece, List.Forall₂ (Piece.Moved k) pieces pieces' →
      Piece.docs escape opening pieces' = Piece.docs escape opening pieces
  | [], _, h => by
      rw [List.forall₂_nil_left_iff.mp h]
  | .text content :: rest, _, h => by
      obtain ⟨piece', rest', hpiece, hrest, rfl⟩ := List.forall₂_cons_left_iff.mp h
      cases hpiece
      rw [Piece.docs, Piece.docs, Piece.docs_moved escape opening rest rest' hrest,
        Piece.docs_moved escape false rest rest' hrest]
  | .substitution reference :: rest, _, h => by
      obtain ⟨piece', rest', hpiece, hrest, rfl⟩ := List.forall₂_cons_left_iff.mp h
      cases hpiece with
      | substitution hreference =>
          rw [Piece.docs, Piece.docs, Substitution.toDoc_moved reference _ hreference,
            Piece.docs_moved escape false rest rest' hrest]
termination_by structural pieces => pieces

theorem Substitution.toDoc_moved :
    ∀ s s' : Substitution, s.Moved k s' → s'.toDoc = s.toDoc
  | ⟨spread, path, span⟩, _, h => by
      obtain ⟨_, hpath, -⟩ := h
      rw [Substitution.toDoc, Substitution.toDoc, KeyPath.toDoc_moved path _ hpath]
termination_by structural s => s

theorem KeyPath.toDoc_moved : ∀ path path' : KeyPath, path.Moved k path' → path'.toDoc = path.toDoc
  | ⟨segments, span⟩, _, h => by
      obtain ⟨hsegments, -⟩ := h
      rw [KeyPath.toDoc, KeyPath.toDoc, StringLit.segmentDocs_moved segments _ hsegments]
termination_by structural path => path

theorem StringLit.segmentDocs_moved :
    ∀ segments segments' : List StringLit, List.Forall₂ (StringLit.Moved k) segments segments' →
      StringLit.segmentDocs segments' = StringLit.segmentDocs segments
  | [], _, h => by
      rw [List.forall₂_nil_left_iff.mp h]
  | segment :: rest, _, h => by
      obtain ⟨segment', rest', hsegment, hrest, rfl⟩ := List.forall₂_cons_left_iff.mp h
      rw [StringLit.segmentDocs, StringLit.segmentDocs,
        StringLit.toDoc_moved .key segment segment' hsegment,
        StringLit.segmentDocs_moved rest rest' hrest]
termination_by structural segments => segments

end

mutual

/-- A moved string says the same. -/
theorem StringLit.plainText_moved :
    ∀ s s' : StringLit, s.Moved k s' → s'.plainText = s.plainText
  | .unquoted pieces span, _, h => by
      cases h with
      | unquoted hpieces hspan =>
          rw [StringLit.plainText, StringLit.plainText, Piece.plainTexts_moved pieces _ hpieces]
  | .doubleQuoted pieces span, _, h => by
      cases h with
      | doubleQuoted hpieces hspan =>
          rw [StringLit.plainText, StringLit.plainText, Piece.plainTexts_moved pieces _ hpieces]
  | .singleQuoted content span, _, h => by
      cases h
      rw [StringLit.plainText, StringLit.plainText]
  | .block content, _, h => by
      cases h with
      | block hblock => rw [StringLit.plainText, StringLit.plainText, hblock.text]
termination_by structural s => s

theorem Piece.plainTexts_moved :
    ∀ pieces pieces' : List Piece, List.Forall₂ (Piece.Moved k) pieces pieces' →
      Piece.plainTexts pieces' = Piece.plainTexts pieces
  | [], _, h => by
      rw [List.forall₂_nil_left_iff.mp h]
  | .text content :: rest, _, h => by
      obtain ⟨piece', rest', hpiece, hrest, rfl⟩ := List.forall₂_cons_left_iff.mp h
      cases hpiece
      rw [Piece.plainTexts, Piece.plainTexts, Piece.plainTexts_moved rest rest' hrest]
  | .substitution reference :: rest, _, h => by
      obtain ⟨piece', rest', hpiece, hrest, rfl⟩ := List.forall₂_cons_left_iff.mp h
      cases hpiece with
      | substitution hreference =>
          rw [Piece.plainTexts, Piece.plainTexts,
            Substitution.plainText_moved reference _ hreference,
            Piece.plainTexts_moved rest rest' hrest]
termination_by structural pieces => pieces

theorem Substitution.plainText_moved :
    ∀ s s' : Substitution, s.Moved k s' → s'.plainText = s.plainText
  | ⟨spread, path, span⟩, _, h => by
      obtain ⟨_, hpath, -⟩ := h
      rw [Substitution.plainText, Substitution.plainText, KeyPath.plainText_moved path _ hpath]
termination_by structural s => s

theorem KeyPath.plainText_moved :
    ∀ path path' : KeyPath, path.Moved k path' → path'.plainText = path.plainText
  | ⟨segments, span⟩, _, h => by
      obtain ⟨hsegments, -⟩ := h
      rw [KeyPath.plainText, KeyPath.plainText, StringLit.plainTexts_moved segments _ hsegments]
termination_by structural path => path

theorem StringLit.plainTexts_moved :
    ∀ segments segments' : List StringLit, List.Forall₂ (StringLit.Moved k) segments segments' →
      StringLit.plainTexts segments' = StringLit.plainTexts segments
  | [], _, h => by
      rw [List.forall₂_nil_left_iff.mp h]
  | segment :: rest, _, h => by
      obtain ⟨segment', rest', hsegment, hrest, rfl⟩ := List.forall₂_cons_left_iff.mp h
      rw [StringLit.plainTexts, StringLit.plainTexts,
        StringLit.plainText_moved segment segment' hsegment,
        StringLit.plainTexts_moved rest rest' hrest]
termination_by structural segments => segments

end

/-- A moved path has a single text if the path has, and it is the same. -/
theorem KeyPath.Moved.single?_eq {path path' : KeyPath} (h : path.Moved k path') :
    path'.single? = path.single? := by
  obtain ⟨hsegments, -⟩ := h
  cases hsegments with
  | nil => rfl
  | cons hsegment hrest =>
      cases hrest with
      | nil => exact congrArg some (StringLit.plainText_moved _ _ hsegment)
      | cons _ _ => rfl

theorem KeyPath.bind_single?_moved {path path' : Option KeyPath}
    (h : Option.Rel (KeyPath.Moved k) path path') :
    path'.bind KeyPath.single? = path.bind KeyPath.single? := by
  cases h with
  | none => rfl
  | some hpath => exact hpath.single?_eq

/-! ## Scalars, imports and edges -/

/-- The second scalar is the first, moved down by `k` lines. -/
inductive Scalar.Moved (k : Nat) : Scalar → Scalar → Prop
  | null {span span' : Span} (hspan : span.Moved k span') : Moved k (.null span) (.null span')
  | suspension (suspend : Bool) {span span' : Span} (hspan : span.Moved k span') :
      Moved k (.suspension suspend span) (.suspension suspend span')
  | boolean (value : Bool) {span span' : Span} (hspan : span.Moved k span') :
      Moved k (.boolean value span) (.boolean value span')
  | number (raw : String) {span span' : Span} (hspan : span.Moved k span') :
      Moved k (.number raw span) (.number raw span')
  | string {content content' : StringLit} (hstring : content.Moved k content') :
      Moved k (.string content) (.string content')

theorem Scalar.toDoc_moved (s s' : Scalar) (h : s.Moved k s') : s'.toDoc = s.toDoc := by
  cases h with
  | string hstring => exact StringLit.toDoc_moved .value _ _ hstring
  | _ => rfl

/-- The second import is the first, moved down by `k` lines. -/
structure Import.Moved (k : Nat) (file file' : Import) : Prop where
  spread : file'.spread = file.spread
  directory : file'.directory = file.directory
  path : file.path.Moved k file'.path
  span : file.span.Moved k file'.span

theorem Import.toDoc_moved {file file' : Import} (h : file.Moved k file') :
    file'.toDoc = file.toDoc := by
  rw [toDoc, toDoc, h.spread, h.directory, KeyPath.toDoc_moved _ _ h.path]

/-- The second edge is the first, moved down by `k` lines. -/
structure Edge.Moved (k : Nat) (e e' : Edge) : Prop where
  source : Option.Rel (KeyPath.Moved k) e.source e'.source
  sourceArrow : e'.sourceArrow = e.sourceArrow
  target : Option.Rel (KeyPath.Moved k) e.target e'.target
  targetArrow : e'.targetArrow = e.targetArrow
  span : e.span.Moved k e'.span

namespace Edge.Moved

variable {e e' : Edge}

theorem sourceDocs_eq (h : e.Moved k e') : e'.sourceDocs = e.sourceDocs := by
  have hsource := map_eq_of_rel KeyPath.toDoc_moved h.source
  rw [sourceDocs, sourceDocs]
  cases hpath : e.source <;> cases hpath' : e'.source <;> simp_all

theorem arrowDoc_eq (h : e.Moved k e') : e'.arrowDoc = e.arrowDoc := by
  have htarget := map_eq_of_rel KeyPath.toDoc_moved h.target
  have harrow : e'.arrow = e.arrow := by
    rw [arrow, arrow, h.sourceArrow, h.targetArrow]
  rw [arrowDoc, arrowDoc, harrow]
  cases hpath : e.target <;> cases hpath' : e'.target <;> simp_all

theorem toDoc_eq (h : e.Moved k e') : e'.toDoc = e.toDoc := by
  rw [toDoc, toDoc, h.sourceDocs_eq, h.arrowDoc_eq]

end Edge.Moved

theorem Edge.chainDoc_moved {edges edges' : List Edge}
    (h : List.Forall₂ (Edge.Moved k) edges edges') : chainDoc edges' = chainDoc edges := by
  cases h with
  | nil => rfl
  | cons hfirst hrest =>
      rw [chainDoc, chainDoc, hfirst.sourceDocs_eq, hfirst.arrowDoc_eq]
      congr 2
      induction hrest with
      | nil => rfl
      | cons hnext _ ih => rw [List.flatMap_cons, List.flatMap_cons, ih, hnext.arrowDoc_eq]

/-- The second index is the first, moved down by `k` lines. -/
structure EdgeIndex.Moved (k : Nat) (i i' : EdgeIndex) : Prop where
  index : i'.index = i.index
  span : i.span.Moved k i'.span

theorem EdgeIndex.toDoc_moved (i i' : EdgeIndex) (h : i.Moved k i') : i'.toDoc = i.toDoc := by
  rw [toDoc, toDoc, h.index]

/-! ## Keys

The document of a key depends on the documents of what the key is made of, and on
nothing else about them. -/

namespace Key

variable {path path' edgePath edgePath' : Option KeyPath} {edges edges' : List Edge}
  {index index' : Option EdgeIndex} {primary primary' : Option Scalar}

theorem edgeDocs_congr (hpath : path'.map KeyPath.toDoc = path.map KeyPath.toDoc)
    (hempty : edges'.isEmpty = edges.isEmpty) (hchain : Edge.chainDoc edges' = Edge.chainDoc edges)
    (hindex : index'.map EdgeIndex.toDoc = index.map EdgeIndex.toDoc)
    (hedgePath : edgePath'.map KeyPath.toDoc = edgePath.map KeyPath.toDoc) :
    edgeDocs path' edges' index' edgePath' = edgeDocs path edges index edgePath := by
  have hpathSome := congrArg Option.isSome hpath
  have hindexSome := congrArg Option.isSome hindex
  have hedgePathSome := congrArg Option.isSome hedgePath
  rw [Option.isSome_map, Option.isSome_map] at hpathSome hindexSome hedgePathSome
  rw [edgeDocs, edgeDocs, isScoped, isScoped, hempty, hchain, hpathSome, hindexSome, hedgePathSome]

theorem subjectDocs_congr (marker : Option Marker)
    (hpath : path'.map KeyPath.toDoc = path.map KeyPath.toDoc)
    (hempty : edges'.isEmpty = edges.isEmpty) (hchain : Edge.chainDoc edges' = Edge.chainDoc edges)
    (hindex : index'.map EdgeIndex.toDoc = index.map EdgeIndex.toDoc)
    (hedgePath : edgePath'.map KeyPath.toDoc = edgePath.map KeyPath.toDoc) :
    subjectDocs marker path' edges' index' edgePath' =
      subjectDocs marker path edges index edgePath := by
  rw [subjectDocs, subjectDocs, edgeDocs_congr hpath hempty hchain hindex hedgePath,
    ← Option.toList_map, ← Option.toList_map, ← Option.toList_map, ← Option.toList_map,
    ← Option.toList_map, hpath, hindex]

theorem fieldDocs_congr (subject : List Doc)
    (hedgePath : edgePath'.map KeyPath.toDoc = edgePath.map KeyPath.toDoc) :
    fieldDocs subject edgePath' = fieldDocs subject edgePath := by
  cases edgePath <;> cases edgePath' <;> simp_all [fieldDocs]

theorem primaryDocs_congr (hprimary : primary'.map Scalar.toDoc = primary.map Scalar.toDoc) :
    primaryDocs primary' = primaryDocs primary := by
  cases primary <;> cases primary' <;> simp_all [primaryDocs]

theorem docOf_congr (marker : Option Marker)
    (hpath : path'.map KeyPath.toDoc = path.map KeyPath.toDoc)
    (hempty : edges'.isEmpty = edges.isEmpty) (hchain : Edge.chainDoc edges' = Edge.chainDoc edges)
    (hindex : index'.map EdgeIndex.toDoc = index.map EdgeIndex.toDoc)
    (hedgePath : edgePath'.map KeyPath.toDoc = edgePath.map KeyPath.toDoc)
    (hprimary : primary'.map Scalar.toDoc = primary.map Scalar.toDoc) (value : Option Doc) :
    docOf marker path' edges' index' edgePath' primary' value =
      docOf marker path edges index edgePath primary value := by
  have hprimarySome := congrArg Option.isSome hprimary
  rw [Option.isSome_map, Option.isSome_map] at hprimarySome
  rw [docOf, docOf, subjectDocs_congr marker hpath hempty hchain hindex hedgePath,
    fieldDocs_congr _ hedgePath, primaryDocs_congr hprimary, hprimarySome]

end Key

/-! ## Trees -/

mutual

/-- The second value is the first, moved down by `k` lines. -/
inductive Value.Moved (k : Nat) : Value → Value → Prop
  | scalar {content content' : Scalar} (hscalar : content.Moved k content') :
      Value.Moved k (.scalar content) (.scalar content')
  | imported {file file' : Import} (himport : file.Moved k file') :
      Value.Moved k (.imported file) (.imported file')
  | array {content content' : ArrayLit} (harray : ArrayLit.Moved k content content') :
      Value.Moved k (.array content) (.array content')
  | map {content content' : MapLit} (hmap : MapLit.Moved k content content') :
      Value.Moved k (.map content) (.map content')

/-- The second array is the first, moved down by `k` lines. -/
inductive ArrayLit.Moved (k : Nat) : ArrayLit → ArrayLit → Prop
  | mk {nodes nodes' : List Node} {span span' : Span}
      (hnodes : List.Forall₂ (Node.Moved k) nodes nodes') (hspan : span.Moved k span') :
      ArrayLit.Moved k ⟨nodes, span⟩ ⟨nodes', span'⟩

/-- The second map is the first, moved down by `k` lines. -/
inductive MapLit.Moved (k : Nat) : MapLit → MapLit → Prop
  | mk (isFile : Bool) {nodes nodes' : List Node} {span span' : Span}
      (hnodes : List.Forall₂ (Node.Moved k) nodes nodes') (hspan : span.Moved k span') :
      MapLit.Moved k ⟨nodes, span, isFile⟩ ⟨nodes', span', isFile⟩

/-- The second key is the first, moved down by `k` lines. -/
inductive Key.Moved (k : Nat) : Key → Key → Prop
  | mk {key key' : Key} (hmarker : key'.marker = key.marker)
      (hpath : Option.Rel (KeyPath.Moved k) key.path key'.path)
      (hedges : List.Forall₂ (Edge.Moved k) key.edges key'.edges)
      (hindex : Option.Rel (EdgeIndex.Moved k) key.edgeIndex key'.edgeIndex)
      (hedgePath : Option.Rel (KeyPath.Moved k) key.edgePath key'.edgePath)
      (hprimary : Option.Rel (Scalar.Moved k) key.primary key'.primary)
      (hvalue : Option.Rel (Value.Moved k) key.value key'.value)
      (hspan : key.span.Moved k key'.span) : Key.Moved k key key'

/-- The second node is the first, moved down by `k` lines: each of its spans is, with
any columns and bytes, and no block string and no block comment gets a place in a
source or loses it. -/
inductive Node.Moved (k : Nat) : Node → Node → Prop
  | comment {content content' : Comment} (hcomment : content.Moved k content') :
      Node.Moved k (.comment content) (.comment content')
  | value {content content' : Value} (hvalue : Value.Moved k content content') :
      Node.Moved k (.value content) (.value content')
  | substitution {content content' : Substitution} (hreference : content.Moved k content') :
      Node.Moved k (.substitution content) (.substitution content')
  | key {content content' : Key} (hkey : Key.Moved k content content') :
      Node.Moved k (.key content) (.key content')
  | keyPath {content content' : KeyPath} (hpath : content.Moved k content') :
      Node.Moved k (.keyPath content) (.keyPath content')
  | edge {content content' : Edge} (hedge : content.Moved k content') :
      Node.Moved k (.edge content) (.edge content')
  | edgeIndex {content content' : EdgeIndex} (hindex : content.Moved k content') :
      Node.Moved k (.edgeIndex content) (.edgeIndex content')

end

/-! ### What the layout of entries asks of a node -/

theorem Scalar.Moved.span_moved {s s' : Scalar} (h : s.Moved k s') : s.span.Moved k s'.span := by
  cases h with
  | null hspan => exact hspan
  | suspension suspend hspan => exact hspan
  | boolean value hspan => exact hspan
  | number raw hspan => exact hspan
  | string hstring =>
      cases hstring with
      | unquoted hpieces hspan => exact hspan
      | doubleQuoted hpieces hspan => exact hspan
      | singleQuoted content hspan => exact hspan
      | block hblock => exact hblock.span

theorem Value.Moved.span_moved {v v' : Value} (h : v.Moved k v') : v.span.Moved k v'.span := by
  cases h with
  | scalar hscalar => exact hscalar.span_moved
  | imported himport => exact himport.span
  | array harray => obtain ⟨-, hspan⟩ := harray; exact hspan
  | map hmap => obtain ⟨_, -, hspan⟩ := hmap; exact hspan

theorem Node.Moved.span_moved {node node' : Node} (h : node.Moved k node') :
    node.span.Moved k node'.span := by
  cases h with
  | comment hcomment => exact hcomment.span
  | value hvalue => exact hvalue.span_moved
  | substitution hreference => obtain ⟨_, -, hspan⟩ := hreference; exact hspan
  | key hkey => obtain ⟨_, -, -, -, -, -, -, hspan⟩ := hkey; exact hspan
  | keyPath hpath => obtain ⟨-, hspan⟩ := hpath; exact hspan
  | edge hedge => exact hedge.span
  | edgeIndex hindex => exact hindex.span

theorem Node.Moved.isComment_eq {node node' : Node} (h : node.Moved k node') :
    node'.isComment = node.isComment := by
  cases h <;> rfl

theorem MapLit.Moved.isEmpty_nodes_eq {m m' : MapLit} (h : m.Moved k m') :
    m'.nodes.isEmpty = m.nodes.isEmpty := by
  obtain ⟨_, hnodes, -⟩ := h
  exact isEmpty_eq_of_forall₂ hnodes

theorem Value.Moved.isEmptyMap_eq {v v' : Value} (h : v.Moved k v') :
    v'.isEmptyMap = v.isEmptyMap := by
  cases h with
  | map hmap => exact hmap.isEmpty_nodes_eq
  | _ => rfl

/-- Where there is a map, there is a moved one. -/
theorem Value.rel_bind_map?_moved {value value' : Option Value}
    (h : Option.Rel (Value.Moved k) value value') :
    Option.Rel (MapLit.Moved k) (value.bind Value.map?) (value'.bind Value.map?) := by
  cases h with
  | none => exact .none
  | some hvalue =>
      cases hvalue with
      | map hmap => exact .some hmap
      | _ => exact .none

/-- A moved key has the same part in the placement of boards. -/
theorem Key.Moved.role_eq {key key' : Key} (h : key.Moved k key') : key'.role = key.role := by
  obtain ⟨-, hpath, hedges, -, -, -, hvalue, -⟩ := h
  have hkind : key'.boardKind? = key.boardKind? := by
    rw [boardKind?, boardKind?, isEmpty_eq_of_forall₂ hedges, KeyPath.bind_single?_moved hpath]
  have hmap := Value.rel_bind_map?_moved hvalue
  rw [role, role, hkind]
  generalize key.value.bind Value.map? = m at hmap
  generalize key'.value.bind Value.map? = m' at hmap
  cases hmap with
  | none => rfl
  | some hmap =>
      cases key.boardKind? with
      | none => rfl
      | some kind =>
          show (if _ then Role.emptyBoard kind else .board kind) = if _ then _ else _
          rw [hmap.isEmpty_nodes_eq]

theorem Node.Moved.role_eq {node node' : Node} (h : node.Moved k node') :
    node'.role = node.role := by
  cases h with
  | key hkey => exact hkey.role_eq
  | _ => rfl

/-- Moved nodes with the same document are alike for the layout of entries, whatever
the layout goes by. -/
theorem Node.Moved.alike {node node' : Node} (h : node.Moved k node')
    (hdoc : node'.toDoc = node.toDoc) {role : Node → Role} (hrole : role node' = role node) :
    Entry.Alike role k ⟨node, node.toDoc⟩ ⟨node', node'.toDoc⟩ :=
  ⟨hdoc, hrole, h.isComment_eq, h.span_moved.start, h.span_moved.stop⟩

/-! ### The documents -/

mutual

theorem Value.toDoc_moved : ∀ v v' : Value, v.Moved k v' → v'.toDoc = v.toDoc
  | .scalar content, _, h => by
      cases h with
      | scalar hscalar => rw [Value.toDoc, Value.toDoc, Scalar.toDoc_moved _ _ hscalar]
  | .imported file, _, h => by
      cases h with
      | imported himport => rw [Value.toDoc, Value.toDoc, Import.toDoc_moved himport]
  | .array content, _, h => by
      cases h with
      | array harray => rw [Value.toDoc, Value.toDoc, ArrayLit.toDoc_moved content _ harray]
  | .map content, _, h => by
      cases h with
      | map hmap => rw [Value.toDoc, Value.toDoc, MapLit.toDoc_moved content _ hmap]
termination_by structural v => v

theorem ArrayLit.toDoc_moved :
    ∀ content content' : ArrayLit, content.Moved k content' → content'.toDoc = content.toDoc
  | ⟨nodes, span⟩, _, h => by
      obtain ⟨hnodes, hspan⟩ := h
      rw [ArrayLit.toDoc, ArrayLit.toDoc]
      exact ArrayLit.docOf_congr hspan.isOneLine_eq
        (Node.entries_moved nodes _ hnodes fun _ _ _ => rfl)
termination_by structural content => content

theorem MapLit.toDoc_moved :
    ∀ content content' : MapLit, content.Moved k content' → content'.toDoc = content.toDoc
  | ⟨nodes, span, isFile⟩, _, h => by
      obtain ⟨_, hnodes, hspan⟩ := h
      rw [MapLit.toDoc, MapLit.toDoc]
      exact MapLit.docOf_congr isFile hspan.isOneLine_eq
        (Node.entries_moved nodes _ hnodes fun _ _ hnode => hnode.role_eq)
termination_by structural content => content

theorem Key.toDoc_moved : ∀ key key' : Key, key.Moved k key' → key'.toDoc = key.toDoc
  | ⟨marker, path, edges, index, edgePath, primary, value, span⟩,
      ⟨marker', path', edges', index', edgePath', primary', value', span'⟩, h => by
      obtain ⟨hmarker, hpath, hedges, hindex, hedgePath, hprimary, hvalue, -⟩ := h
      rw [Key.toDoc, Key.toDoc, Value.printed?_moved value value' hvalue]
      rw [show marker' = marker from hmarker]
      exact Key.docOf_congr marker (map_eq_of_rel KeyPath.toDoc_moved hpath)
        (isEmpty_eq_of_forall₂ hedges) (Edge.chainDoc_moved hedges)
        (map_eq_of_rel EdgeIndex.toDoc_moved hindex)
        (map_eq_of_rel KeyPath.toDoc_moved hedgePath)
        (map_eq_of_rel Scalar.toDoc_moved hprimary) _
termination_by structural key => key

theorem Value.printed?_moved :
    ∀ value value' : Option Value, Option.Rel (Value.Moved k) value value' →
      Value.printed? value' = Value.printed? value
  | none, _, h => by
      cases h
      rfl
  | some v, _, h => by
      cases h with
      | some hvalue =>
          rw [Value.printed?, Value.printed?, hvalue.isEmptyMap_eq, Value.toDoc_moved v _ hvalue]
termination_by structural value => value

/-- **A moved tree has the same document.** -/
theorem Node.toDoc_moved : ∀ node node' : Node, node.Moved k node' → node'.toDoc = node.toDoc
  | .comment content, _, h => by
      cases h with
      | comment hcomment => rw [Node.toDoc, Node.toDoc, Comment.toDoc_moved hcomment]
  | .value content, _, h => by
      cases h with
      | value hvalue => rw [Node.toDoc, Node.toDoc, Value.toDoc_moved content _ hvalue]
  | .substitution content, _, h => by
      cases h with
      | substitution hreference =>
          rw [Node.toDoc, Node.toDoc, Substitution.toDoc_moved content _ hreference]
  | .key content, _, h => by
      cases h with
      | key hkey => rw [Node.toDoc, Node.toDoc, Key.toDoc_moved content _ hkey]
  | .keyPath content, _, h => by
      cases h with
      | keyPath hpath => rw [Node.toDoc, Node.toDoc, KeyPath.toDoc_moved content _ hpath]
  | .edge content, _, h => by
      cases h with
      | edge hedge => rw [Node.toDoc, Node.toDoc, hedge.toDoc_eq]
  | .edgeIndex content, _, h => by
      cases h with
      | edgeIndex hindex => rw [Node.toDoc, Node.toDoc, EdgeIndex.toDoc_moved _ _ hindex]
termination_by structural node => node

theorem Node.entries_moved :
    ∀ nodes nodes' : List Node, List.Forall₂ (Node.Moved k) nodes nodes' →
      ∀ {role : Node → Role}, (∀ node node', node.Moved k node' → role node' = role node) →
        List.Forall₂ (Entry.Alike role k) (Node.entries nodes) (Node.entries nodes')
  | [], _, h, _, _ => by
      rw [List.forall₂_nil_left_iff.mp h, Node.entries]
      exact .nil
  | node :: rest, _, h, _, hrole => by
      obtain ⟨node', rest', hnode, hrest, rfl⟩ := List.forall₂_cons_left_iff.mp h
      rw [Node.entries, Node.entries]
      exact .cons (hnode.alike (Node.toDoc_moved node node' hnode) (hrole node node' hnode))
        (Node.entries_moved rest rest' hrest hrole)
termination_by structural nodes => nodes

end

/-- **Only relative line numbers matter.**  A tree that is moved down by some lines of
its source has the same text, whatever becomes of columns and offsets, if no block
string and no block comment of it gets a place in a source or loses it. -/
theorem Node.format_moved {node node' : Node} (h : node.Moved k node') (i : Indentation) :
    node'.format i = node.format i := by
  rw [Node.format, Node.format, Node.toDoc_moved node node' h]

/-- A span from one line to another, both counted from a line, at a column. -/
def Span.below (line column first last : Nat) : Span :=
  ⟨⟨line + first, column, column⟩, ⟨line + last, column, column⟩⟩

theorem Span.moved_below (line column column' first last : Nat) :
    (Span.below line column first last).Moved k (Span.below (line + k) column' first last) :=
  ⟨Nat.add_right_comm .., Nat.add_right_comm ..⟩

/-- A file at a place of a source.  Its first key is a block over several lines with a
comment on its last line, and its second key stands below a blank line. -/
def Node.noteAt (line column : Nat) : Node :=
  let on := Span.below line column
  let path (name : String) (place : Nat) : KeyPath :=
    ⟨[.unquoted [.text name] (on place place)], on place place⟩
  .value (.map ⟨[
    .key ⟨none, some (path "a" 0), [], none, none, none,
      some (.scalar (.string (.block ⟨"x\n\ny", "md", "", on 0 4⟩))), on 0 4⟩,
    .comment ⟨.line, "note", on 4 4⟩,
    .key ⟨none, some (path "b" 6), [], none, none, none, none, on 6 6⟩], on 0 7, true⟩)

theorem Node.moved_noteAt : (Node.noteAt 0 0).Moved 3 (Node.noteAt 3 8) := by
  have hspan : ∀ first last, (Span.below 0 0 first last).Moved 3 (Span.below 3 8 first last) :=
    fun _ _ => Span.moved_below 0 0 8 _ _
  have hpath : ∀ name line, KeyPath.Moved 3
      ⟨[.unquoted [.text name] (Span.below 0 0 line line)], Span.below 0 0 line line⟩
      ⟨[.unquoted [.text name] (Span.below 3 8 line line)], Span.below 3 8 line line⟩ :=
    fun name _ => .mk (.cons (.unquoted (.cons (.text name) .nil) (hspan _ _)) .nil) (hspan _ _)
  refine .value (.map (.mk true (.cons (.key ?_) (.cons (.comment ?_) (.cons (.key ?_) .nil)))
    (hspan 0 7)))
  · exact .mk rfl (.some (hpath "a" 0)) .nil .none .none .none
      (.some (.scalar (.string (.block ⟨rfl, rfl, rfl, hspan 0 4, rfl⟩)))) (hspan 0 4)
  · exact ⟨rfl, rfl, hspan 4 4, fun h => by cases h⟩
  · exact .mk rfl (.some (hpath "b" 6)) .nil .none .none .none .none (hspan 6 6)

theorem Node.format_moved_noteAt :
    (Node.noteAt 0 0).Moved 3 (Node.noteAt 3 8) ∧
      (Node.noteAt 3 8).format {} = (Node.noteAt 0 0).format {} :=
  ⟨Node.moved_noteAt, Node.format_moved Node.moved_noteAt {}⟩

end DiagramText
