import DiagramText.Proofs.KeySpelling
import DiagramText.Proofs.SourceSpacing

/-!
# The context of a key stays in the key

A string is written in one way in a key and in another in a value.  In the functions that
lay out a tree the context is an argument of those that write strings, and all others do
without it.  It can also be carried along as a state that is replaced where a key path
begins and put back where it ends.  Then a single place that forgets to put it back changes
the escapes of everything behind it: of the segments that follow a substitution, of the
value that follows a key, of the entries that follow an array.  This file shows that
nothing of the kind happens.

## The context as a state

A `Layout` reads and writes the context.  Each function that lays out a part of a tree is
given a second time, as `layOut`, with the context as a state and with the parts in the
order in which they are printed, and is compared with the first.

* What does not hold a value is run in every context (`run_layOut`).  The context comes back,
  and the document is the one that the functions with an argument give.  A key path has the
  same document in every context, since its segments are laid out as keys and the context
  outside is put back whatever happens inside (`run_asKey`).
* A value that is a string is written in the context that it meets, so for values and for all
  that holds them `Yields` says two things: every context is left as it was found, and in the
  context of values the document is the known one.  The two together are passed on from one
  part to the next (`Yields.bind`), and neither would be without the other.

## One text, four ways to it

A string without quotes is laid out by the same function wherever it stands, but four others
lead there: one tells the strings apart, which are the segments of paths, one the scalars, one
the values, and one the nodes.  Each has a case of its own for every kind, and nothing but the
cases themselves makes the four agree.  `Layout.DispatchAgrees` says that they do: a string, a
scalar or a value is laid out like the node that it becomes.

## The text of a key

As nothing is carried over from one part of a key to the next, a key can be put together from
the texts that its parts have on their own, and its punctuation (`Key.format_key_eq_spelling`).
-/

namespace DiagramText

/-! ## Laying out with a context that can change -/

/-- Something that is laid out in a context, and may leave another context behind. -/
abbrev Layout (α : Type) := StateM Context α

namespace Layout

variable {α β : Type}

/-- Lays something out as a key.  The context is replaced for it and put back behind it. -/
def asKey (inner : Layout α) : Layout α := do
  let outer ← getModify fun _ => Context.key
  let content ← inner
  set outer
  return content

/-- The entries at some positions, laid out one after the other, each behind its lead. -/
def row (lead : Nat → List Doc) (entries : List (Layout Doc)) (order : List Nat) :
    Layout (List Doc) := do
  let parts ← order.mapM fun k => do
    let doc ← entries.getD k (pure .nil)
    return lead k ++ [doc]
  return parts.flatten

/-- A string without quotes, from the layout of its pieces.  A single text is not written
piece by piece. -/
def bare (pieces : List Piece) (written : Layout (List Doc)) : Layout Doc :=
  match Piece.wholeText? pieces with
  | some content => do
      return .ofString (Escape.unquoted (← get) (Keyword.canonical content))
  | none => do
      return Doc.concat (← written)

/-- A string between double quotes, from the layout of its pieces. -/
def doubleQuoted (written : Layout (List Doc)) : Layout Doc := do
  return Doc.surround (.ofString "\"") (Doc.concat (← written)) (.ofString "\"")

/-- A string between single quotes. -/
def singleQuoted (content : String) : Layout Doc :=
  return Doc.surround (.ofString "'") (.ofString (Escape.singleQuoted content)) (.ofString "'")

/-- A suspension, or the end of one. -/
def suspension (suspend : Bool) : Layout Doc :=
  return .ofString (if suspend then "suspend" else "unsuspend")

/-- A truth value. -/
def boolean (content : Bool) : Layout Doc :=
  return .ofString (if content then "true" else "false")

end Layout

/-! ## The methods -/

mutual

/-- Lays out a string. -/
def StringLit.layOut : StringLit → Layout Doc
  | .unquoted pieces _ => Layout.bare pieces (Piece.layOut Escape.unquotedPiece true pieces)
  | .doubleQuoted pieces _ =>
      Layout.doubleQuoted (Piece.layOut (fun ctx _ => Escape.doubleQuoted ctx) true pieces)
  | .singleQuoted content _ => Layout.singleQuoted content
  | .block content => return content.toDoc

/-- Lays out the pieces of a string.  Each text is written in the context that stands when
its turn comes. -/
def Piece.layOut (escape : Context → Bool → String → String) :
    Bool → List Piece → Layout (List Doc)
  | _, [] => return []
  | opening, .text content :: rest =>
      if content.isEmpty then Piece.layOut escape opening rest
      else do
        let ctx ← get
        let others ← Piece.layOut escape false rest
        return .ofString (escape ctx opening content) :: others
  | _, .substitution reference :: rest => do
      let doc ← reference.layOut
      let others ← Piece.layOut escape false rest
      return doc :: others

/-- Lays out a substitution. -/
def Substitution.layOut : Substitution → Layout Doc
  | ⟨spread, path, _⟩ => do
      let doc ← path.layOut
      return Doc.concat
        ((if spread then [.ofString "..."] else []) ++ [.ofString "$\x7b", doc, .ofString "\x7d"])

/-- Lays out a key path, as a key. -/
def KeyPath.layOut : KeyPath → Layout Doc
  | ⟨segments, _⟩ => Layout.asKey do
      return Doc.join (.ofString ".") (← StringLit.layOutSegments segments)

/-- Lays out the segments of a key path. -/
def StringLit.layOutSegments : List StringLit → Layout (List Doc)
  | [] => return []
  | segment :: rest => do
      let doc ← segment.layOut
      let others ← StringLit.layOutSegments rest
      return doc :: others

end

/-- Lays out the pieces of a string without quotes. -/
def Piece.layOutUnquoted (pieces : List Piece) : Layout Doc :=
  Layout.bare pieces (layOut Escape.unquotedPiece true pieces)

/-- Lays out the pieces of a string between double quotes. -/
def Piece.layOutDoubleQuoted (pieces : List Piece) : Layout Doc :=
  Layout.doubleQuoted (layOut (fun ctx _ => Escape.doubleQuoted ctx) true pieces)

/-- Lays out a scalar. -/
def Scalar.layOut : Scalar → Layout Doc
  | .null _ => return .ofString "null"
  | .suspension suspend _ => Layout.suspension suspend
  | .boolean content _ => Layout.boolean content
  | .number raw _ => return .ofString raw
  | .string (.unquoted pieces _) => Piece.layOutUnquoted pieces
  | .string (.doubleQuoted pieces _) => Piece.layOutDoubleQuoted pieces
  | .string (.singleQuoted content _) => Layout.singleQuoted content
  | .string (.block content) => return content.toDoc

/-- Lays out an import. -/
def Import.layOut (file : Import) : Layout Doc := do
  let doc ← file.path.layOut
  return Doc.concat
    ((if file.spread then [.ofString "..."] else []) ++
      [.ofString "@", .ofString file.directory, doc])

namespace Edge

/-- Lays out the source of an edge and the space after it. -/
def layOutSource (e : Edge) : Layout (List Doc) :=
  match e.source with
  | none => return []
  | some path => do return [← path.layOut, .ofString " "]

/-- Lays out the arrow of an edge and its target. -/
def layOutArrow (e : Edge) : Layout Doc :=
  match e.target with
  | none => return Doc.concat [.ofString e.arrow]
  | some path => do return Doc.concat [.ofString e.arrow, .ofString " ", ← path.layOut]

/-- Lays out an edge on its own. -/
def layOut (e : Edge) : Layout Doc := do
  let source ← e.layOutSource
  let arrow ← e.layOutArrow
  return Doc.concat (source ++ [arrow])

/-- Lays out a chain of edges. -/
def layOutChain : List Edge → Layout Doc
  | [] => return .nil
  | first :: rest => do
      let source ← first.layOutSource
      let arrow ← first.layOutArrow
      let arrows ← rest.mapM layOutArrow
      return Doc.concat (source ++ [arrow] ++ arrows.flatMap fun doc => [.ofString " ", doc])

end Edge

namespace Key

variable (marker : Option Marker) (path : Option KeyPath) (edges : List Edge)
  (index : Option EdgeIndex) (edgePath : Option KeyPath)

/-- Lays out the edges of a key. -/
def layOutEdges : Layout (List Doc) :=
  if edges.isEmpty then return []
  else do
    let chain ← Edge.layOutChain edges
    return (if path.isSome then [.ofString "."] else []) ++
      (if isScoped path index edgePath then [.ofString "(", chain, .ofString ")"] else [chain])

/-- Lays out a key up to the path of a field of its edges. -/
def layOutSubject : Layout (List Doc) := do
  let paths ← path.toList.mapM KeyPath.layOut
  let edges ← layOutEdges path edges index edgePath
  return (marker.toList.map fun m => .ofString m.text) ++ paths ++ edges ++
    index.toList.map EdgeIndex.toDoc

/-- Lays out the path of a field, behind what stands in front of it. -/
def layOutField (subject : List Doc) : Layout (List Doc) :=
  match edgePath with
  | none => return []
  | some path => do
      return (if Doc.allNil subject then [] else [.ofString "."]) ++ [← path.layOut]

/-- Lays out the short value of a key. -/
def layOutPrimary (primary : Option Scalar) : Layout (List Doc) :=
  match primary with
  | none => return []
  | some content => do return [.ofString ": ", ← content.layOut]

end Key

mutual

/-- Lays out a value. -/
def Value.layOut : Value → Layout Doc
  | .scalar content => content.layOut
  | .imported file => file.layOut
  | .array content => content.layOut
  | .map content => content.layOut

/-- Lays out an array, its entries in their order. -/
def ArrayLit.layOut : ArrayLit → Layout Doc
  | ⟨nodes, span⟩ => do
      let parts ← Layout.row (ArrayLit.lead ⟨nodes, span⟩) (Node.layOuts nodes)
        (List.range nodes.length)
      return Brackets.square.enclose span.isOneLine parts

/-- Lays out a map, its entries in the order in which they are printed. -/
def MapLit.layOut : MapLit → Layout Doc
  | ⟨nodes, span, isFile⟩ => do
      let parts ← Layout.row (MapLit.lead ⟨nodes, span, isFile⟩) (Node.layOuts nodes)
        (MapLit.printOrder ⟨nodes, span, isFile⟩)
      return MapLit.frame ⟨nodes, span, isFile⟩ parts

/-- Lays out a key. -/
def Key.layOut : Key → Layout Doc
  | ⟨marker, path, edges, index, edgePath, primary, value, _⟩ => do
      let subject ← Key.layOutSubject marker path edges index edgePath
      let field ← Key.layOutField edgePath subject
      let short ← Key.layOutPrimary primary
      let bound ← Value.layOutPrinted? value
      return Doc.concat (subject ++ field ++ short ++ Key.valueDocs primary.isSome bound)

/-- Lays out the value that a key prints. -/
def Value.layOutPrinted? : Option Value → Layout (Option Doc)
  | none => return none
  | some value => if value.isEmptyMap then return none else do return some (← value.layOut)

/-- Lays out a node. -/
def Node.layOut : Node → Layout Doc
  | .comment content => return content.toDoc
  | .null _ => return .ofString "null"
  | .suspension suspend _ => Layout.suspension suspend
  | .boolean content _ => Layout.boolean content
  | .number raw _ => return .ofString raw
  | .unquoted pieces _ => Piece.layOutUnquoted pieces
  | .doubleQuoted pieces _ => Piece.layOutDoubleQuoted pieces
  | .singleQuoted content _ => Layout.singleQuoted content
  | .block content => return content.toDoc
  | .substitution content => content.layOut
  | .imported file => file.layOut
  | .array content => content.layOut
  | .map content => content.layOut
  | .key content => content.layOut
  | .keyPath content => content.layOut
  | .edge content => content.layOut
  | .edgeIndex content => return content.toDoc

/-- The layouts of some nodes. -/
def Node.layOuts : List Node → List (Layout Doc)
  | [] => []
  | node :: rest => node.layOut :: Node.layOuts rest

end

/-! ## What a layout does to the context -/

namespace Layout

variable {α β : Type}

theorem run_bind (layout : Layout α) (next : α → Layout β) (ctx : Context) :
    (layout >>= next).run ctx = (next (layout.run ctx).1).run (layout.run ctx).2 := rfl

theorem run_pure (a : α) (ctx : Context) : (pure a : Layout α).run ctx = (a, ctx) := rfl

theorem run_get (ctx : Context) : (get : Layout Context).run ctx = (ctx, ctx) := rfl

/-- What is laid out as a key is laid out in the context of keys, and the context outside is
as before, **whatever the layout inside does to it**. -/
theorem run_asKey (inner : Layout α) (ctx : Context) :
    (asKey inner).run ctx = ((inner.run .key).1, ctx) := rfl

end Layout

open Layout

mutual

theorem StringLit.run_layOut (ctx : Context) :
    ∀ s : StringLit, s.layOut.run ctx = (s.toDoc ctx, ctx)
  | .unquoted pieces span => by
      rw [StringLit.layOut, StringLit.toDoc, bare]
      cases Piece.wholeText? pieces with
      | some content => rfl
      | none =>
          show (Piece.layOut Escape.unquotedPiece true pieces >>= _).run ctx = _
          rw [run_bind, Piece.run_layOut]
          rfl
  | .doubleQuoted pieces span => by
      rw [StringLit.layOut, StringLit.toDoc, doubleQuoted, run_bind, Piece.run_layOut]
      rfl
  | .singleQuoted content span => by
      rw [StringLit.layOut, StringLit.toDoc]
      rfl
  | .block content => by
      rw [StringLit.layOut, StringLit.toDoc]
      rfl

theorem Piece.run_layOut (escape : Context → Bool → String → String) (opening : Bool)
    (ctx : Context) :
    ∀ pieces : List Piece,
      (Piece.layOut escape opening pieces).run ctx = (Piece.docs (escape ctx) opening pieces, ctx)
  | [] => by
      rw [Piece.layOut, Piece.docs]
      rfl
  | .text content :: rest => by
      rw [Piece.layOut, Piece.docs]
      split
      · exact Piece.run_layOut escape opening ctx rest
      · rw [run_bind, run_get, run_bind, Piece.run_layOut]
        rfl
  | .substitution reference :: rest => by
      -- the substitution has put the context back, so the texts behind it are escaped like
      -- those in front of it
      rw [Piece.layOut, Piece.docs, run_bind, Substitution.run_layOut, run_bind, Piece.run_layOut]
      rfl

theorem Substitution.run_layOut (ctx : Context) :
    ∀ reference : Substitution, reference.layOut.run ctx = (reference.toDoc, ctx)
  | ⟨spread, path, span⟩ => by
      rw [Substitution.layOut, Substitution.toDoc, run_bind, KeyPath.run_layOut]
      rfl

/-- **A key path has one document, whatever the context it stands in.** -/
theorem KeyPath.run_layOut (ctx : Context) :
    ∀ path : KeyPath, path.layOut.run ctx = (path.toDoc, ctx)
  | ⟨segments, span⟩ => by
      rw [KeyPath.layOut, KeyPath.toDoc, run_asKey, run_bind, StringLit.run_layOutSegments,
        StringLit.segmentDocs_eq_map]
      rfl

theorem StringLit.run_layOutSegments (ctx : Context) :
    ∀ segments : List StringLit,
      (StringLit.layOutSegments segments).run ctx = (segments.map (StringLit.toDoc ctx), ctx)
  | [] => by
      rw [StringLit.layOutSegments]
      rfl
  | segment :: rest => by
      rw [StringLit.layOutSegments, List.map_cons, run_bind, StringLit.run_layOut, run_bind,
        StringLit.run_layOutSegments]
      rfl

end

theorem Piece.run_layOutUnquoted (ctx : Context) (pieces : List Piece) :
    (layOutUnquoted pieces).run ctx = ((StringLit.unquoted pieces .unset).toDoc ctx, ctx) := by
  have hstring := StringLit.run_layOut ctx (.unquoted pieces .unset)
  rwa [StringLit.layOut] at hstring

theorem Piece.run_layOutDoubleQuoted (ctx : Context) (pieces : List Piece) :
    (layOutDoubleQuoted pieces).run ctx =
      ((StringLit.doubleQuoted pieces .unset).toDoc ctx, ctx) := by
  have hstring := StringLit.run_layOut ctx (.doubleQuoted pieces .unset)
  rwa [StringLit.layOut] at hstring

theorem Layout.run_mapM {α β : Type} {f : α → Layout β} {g : α → β} {ctx : Context}
    (h : ∀ x, (f x).run ctx = (g x, ctx)) (xs : List α) :
    (xs.mapM f).run ctx = (xs.map g, ctx) := by
  induction xs with
  | nil => rfl
  | cons x xs ih =>
      rw [List.mapM_cons, run_bind, h, run_bind, ih]
      rfl

/-! ## Imports, edges and the subjects of keys -/

section Paths

variable (ctx : Context)

theorem Import.run_layOut (file : Import) : file.layOut.run ctx = (file.toDoc, ctx) := by
  rw [layOut, run_bind, KeyPath.run_layOut]
  rfl

namespace Edge

theorem run_layOutSource (e : Edge) : e.layOutSource.run ctx = (e.sourceDocs, ctx) := by
  rw [layOutSource, sourceDocs]
  cases e.source with
  | none => rfl
  | some path =>
      show (path.layOut >>= _).run ctx = _
      rw [run_bind, KeyPath.run_layOut]
      rfl

theorem run_layOutArrow (e : Edge) : e.layOutArrow.run ctx = (e.arrowDoc, ctx) := by
  rw [layOutArrow, arrowDoc]
  cases e.target with
  | none => rfl
  | some path =>
      show (path.layOut >>= _).run ctx = _
      rw [run_bind, KeyPath.run_layOut]
      rfl

theorem run_layOut (e : Edge) : e.layOut.run ctx = (e.toDoc, ctx) := by
  rw [layOut, run_bind, run_layOutSource, run_bind, run_layOutArrow]
  rfl

theorem run_layOutChain (edges : List Edge) :
    (layOutChain edges).run ctx = (chainDoc edges, ctx) := by
  cases edges with
  | nil => rfl
  | cons first rest =>
      rw [layOutChain, run_bind, run_layOutSource, run_bind, run_layOutArrow, run_bind,
        run_mapM (run_layOutArrow ctx), run_pure, chainDoc, List.flatMap_map]

end Edge

namespace Key

variable (marker : Option Marker) (path : Option KeyPath) (edges : List Edge)
  (index : Option EdgeIndex) (edgePath : Option KeyPath)

theorem run_layOutEdges :
    (layOutEdges path edges index edgePath).run ctx =
      (edgeDocs path edges index edgePath, ctx) := by
  rw [layOutEdges, edgeDocs]
  split
  · rfl
  · rw [run_bind, Edge.run_layOutChain]
    rfl

theorem run_layOutSubject :
    (layOutSubject marker path edges index edgePath).run ctx =
      (subjectDocs marker path edges index edgePath, ctx) := by
  rw [layOutSubject, run_bind, run_mapM (KeyPath.run_layOut ctx), run_bind, run_layOutEdges]
  rfl

theorem run_layOutField (subject : List Doc) :
    (layOutField edgePath subject).run ctx = (fieldDocs subject edgePath, ctx) := by
  rw [layOutField.eq_def, fieldDocs.eq_def]
  cases edgePath with
  | none => rfl
  | some path =>
      show (path.layOut >>= _).run ctx = _
      rw [run_bind, KeyPath.run_layOut]
      rfl

end Key

end Paths

/-! ## Keeping the context, and yielding a content -/

namespace Layout

variable {α β : Type} {layout : Layout α} {next : α → Layout β} {a : α}

/-- A layout leaves every context as it finds it. -/
def Keeps (layout : Layout α) : Prop := ∀ ctx, (layout.run ctx).2 = ctx

/-- A layout leaves every context as it finds it, and gives the content in the context of
values. -/
structure Yields (layout : Layout α) (content : α) : Prop where
  keeps : layout.Keeps
  content : (layout.run .value).1 = content

theorem keeps_of_run {content : Context → α} (h : ∀ ctx, layout.run ctx = (content ctx, ctx)) :
    layout.Keeps := by
  intro ctx
  rw [h ctx]

theorem yields_of_run (h : ∀ ctx, layout.run ctx = (a, ctx)) : layout.Yields a where
  keeps := keeps_of_run h
  content := by rw [h .value]

theorem yields_pure (a : α) : (pure a : Layout α).Yields a := yields_of_run fun _ => rfl

/-- What comes next is laid out in the same context, since nothing before it has changed
that. -/
theorem Yields.bind {f : α → β} (h : layout.Yields a) (hnext : ∀ x, (next x).Yields (f x)) :
    (layout >>= next).Yields (f a) where
  keeps ctx := by
    rw [run_bind, (hnext _).keeps, h.keeps]
  content := by
    rw [run_bind, h.keeps, h.content, (hnext a).content]

theorem yields_mapM {f : α → Layout β} {g : α → β} (h : ∀ x, (f x).Yields (g x)) (xs : List α) :
    (xs.mapM f).Yields (xs.map g) := by
  induction xs with
  | nil => exact yields_pure []
  | cons x xs ih =>
      rw [List.mapM_cons]
      exact (h x).bind fun y => ih.bind fun ys => yields_pure (y :: ys)

/-- A row gives the documents of its entries, each behind its lead, in any order. -/
theorem yields_row (lead : Nat → List Doc) {entries : List (Layout Doc)} {doc : Nat → Doc}
    (h : ∀ k, (entries.getD k (pure .nil)).Yields (doc k)) (order : List Nat) :
    (row lead entries order).Yields (order.flatMap fun k => lead k ++ [doc k]) := by
  have hentry : ∀ k, Yields (do return lead k ++ [← entries.getD k (pure .nil)])
      (lead k ++ [doc k]) := fun k => (h k).bind fun d => yields_pure (lead k ++ [d])
  rw [List.flatMap_def]
  exact (yields_mapM hentry order).bind fun parts => yields_pure parts.flatten

end Layout

/-! ## The kinds of strings, scalars, values and nodes -/

/-- A scalar that is a string is laid out like the string. -/
theorem Scalar.layOut_string (s : StringLit) : (Scalar.string s).layOut = s.layOut := by
  cases s with
  | unquoted pieces span => rw [layOut, StringLit.layOut, Piece.layOutUnquoted]
  | doubleQuoted pieces span => rw [layOut, StringLit.layOut, Piece.layOutDoubleQuoted]
  | singleQuoted content span => rw [layOut, StringLit.layOut]
  | block content => rw [layOut, StringLit.layOut]

namespace Node

/-- A scalar is laid out like the node that it becomes. -/
theorem layOut_ofScalar (s : Scalar) : (ofScalar s).layOut = s.layOut := by
  cases s with
  | string content => cases content <;> rw [ofScalar, layOut, Scalar.layOut]
  | _ => rw [ofScalar, layOut, Scalar.layOut]

/-- A string is laid out like the node that it becomes. -/
theorem layOut_ofString (s : StringLit) : (ofString s).layOut = s.layOut := by
  rw [ofString_eq, ← ofScalar_eq, layOut_ofScalar, Scalar.layOut_string]

/-- A value is laid out like the node that it becomes. -/
theorem layOut_ofValue (v : Value) : (ofValue v).layOut = v.layOut := by
  cases v with
  | scalar content => rw [ofValue, layOut_ofScalar, Value.layOut]
  | _ => rw [ofValue, layOut, Value.layOut]

end Node

/-! ## Values and nodes -/

/-- A scalar is the one thing behind a key whose text depends on the context. -/
theorem Scalar.yields_layOut (s : Scalar) : s.layOut.Yields s.toDoc := by
  cases s with
  | string content =>
      have hrun : ∀ ctx, (Scalar.string content).layOut.run ctx = (content.toDoc ctx, ctx) := by
        intro ctx
        rw [layOut_string, content.run_layOut]
      exact ⟨keeps_of_run hrun, by rw [hrun, toDoc]⟩
  | null span => exact yields_pure _
  | suspension suspend span => exact yields_pure _
  | boolean content span => exact yields_pure _
  | number raw span => exact yields_pure _

theorem Key.yields_layOutPrimary (primary : Option Scalar) :
    (layOutPrimary primary).Yields (primaryDocs primary) := by
  cases primary with
  | none => exact yields_pure []
  | some content => exact content.yields_layOut.bind fun doc => yields_pure [.ofString ": ", doc]

mutual

theorem Value.yields_layOut : ∀ v : Value, v.layOut.Yields v.toDoc
  | .scalar content => by
      rw [Value.layOut, Value.toDoc]
      exact content.yields_layOut
  | .imported file => by
      rw [Value.layOut, Value.toDoc]
      exact yields_of_run file.run_layOut
  | .array content => by
      rw [Value.layOut, Value.toDoc]
      exact content.yields_layOut
  | .map content => by
      rw [Value.layOut, Value.toDoc]
      exact content.yields_layOut

theorem ArrayLit.yields_layOut : ∀ a : ArrayLit, a.layOut.Yields a.toDoc
  | ⟨nodes, span⟩ => by
      rw [ArrayLit.layOut, ArrayLit.toDoc_eq_lead]
      exact (yields_row _ (Node.yields_layOuts nodes) _).bind fun parts =>
        yields_pure (Brackets.square.enclose span.isOneLine parts)

theorem MapLit.yields_layOut : ∀ m : MapLit, m.layOut.Yields m.toDoc
  | ⟨nodes, span, isFile⟩ => by
      rw [MapLit.layOut, MapLit.toDoc_eq_lead]
      exact (yields_row _ (Node.yields_layOuts nodes) _).bind fun parts =>
        yields_pure (MapLit.frame ⟨nodes, span, isFile⟩ parts)

theorem Key.yields_layOut : ∀ k : Key, k.layOut.Yields k.toDoc
  | ⟨marker, path, edges, index, edgePath, primary, value, span⟩ => by
      have hsubject : (Key.layOutSubject marker path edges index edgePath).Yields _ :=
        yields_of_run fun ctx => Key.run_layOutSubject ctx marker path edges index edgePath
      have hfield : ∀ subject, (Key.layOutField edgePath subject).Yields _ :=
        fun subject => yields_of_run fun ctx => Key.run_layOutField ctx edgePath subject
      rw [Key.layOut, Key.toDoc]
      -- whatever has been laid out of the key, the context for the next part is the same
      exact hsubject.bind fun subject => (hfield subject).bind fun field =>
        (Key.yields_layOutPrimary primary).bind fun short =>
          (Value.yields_layOutPrinted? value).bind fun bound =>
            yields_pure (Doc.concat (subject ++ field ++ short ++
              Key.valueDocs primary.isSome bound))

theorem Value.yields_layOutPrinted? :
    ∀ value : Option Value, (Value.layOutPrinted? value).Yields (Value.printed? value)
  | none => by
      rw [Value.layOutPrinted?, Value.printed?]
      exact yields_pure none
  | some v => by
      rw [Value.layOutPrinted?, Value.printed?]
      split
      · exact yields_pure none
      · exact v.yields_layOut.bind fun doc => yields_pure (some doc)

theorem Node.yields_layOut : ∀ node : Node, node.layOut.Yields node.toDoc
  | .comment content => by
      rw [Node.layOut, Node.toDoc]
      exact yields_pure _
  | .value content => by
      rw [← Node.ofValue_eq, Node.layOut_ofValue, Node.ofValue_eq, Node.toDoc]
      exact content.yields_layOut
  | .substitution content => by
      rw [Node.layOut, Node.toDoc]
      exact yields_of_run fun ctx => content.run_layOut ctx
  | .key content => by
      rw [Node.layOut, Node.toDoc]
      exact content.yields_layOut
  | .keyPath content => by
      rw [Node.layOut, Node.toDoc]
      exact yields_of_run fun ctx => content.run_layOut ctx
  | .edge content => by
      rw [Node.layOut, Node.toDoc]
      exact yields_of_run fun ctx => content.run_layOut ctx
  | .edgeIndex content => by
      rw [Node.layOut, Node.toDoc]
      exact yields_pure _

theorem Node.yields_layOuts : ∀ (nodes : List Node) (k : Nat),
    ((Node.layOuts nodes).getD k (pure .nil)).Yields (Node.docAt nodes k)
  | [], k => by
      rw [Node.layOuts]
      exact yields_pure Doc.nil
  | node :: rest, 0 => by
      rw [Node.layOuts]
      exact node.yields_layOut
  | node :: rest, k + 1 => by
      rw [Node.layOuts]
      exact Node.yields_layOuts rest k

end

/-! ## Nothing leaks -/

/-- Every way to lay out a part of a tree leaves every context as it finds it. -/
structure Layout.ContextKept : Prop where
  asKey : ∀ {α : Type} (inner : Layout α), (asKey inner).Keeps
  string : ∀ s : StringLit, s.layOut.Keeps
  unquoted : ∀ pieces : List Piece, (Piece.layOutUnquoted pieces).Keeps
  doubleQuoted : ∀ pieces : List Piece, (Piece.layOutDoubleQuoted pieces).Keeps
  pieces : ∀ (escape : Context → Bool → String → String) (opening : Bool) (pieces : List Piece),
    (Piece.layOut escape opening pieces).Keeps
  substitution : ∀ reference : Substitution, reference.layOut.Keeps
  path : ∀ path : KeyPath, path.layOut.Keeps
  segments : ∀ segments : List StringLit, (StringLit.layOutSegments segments).Keeps
  scalar : ∀ s : Scalar, s.layOut.Keeps
  imported : ∀ file : Import, file.layOut.Keeps
  source : ∀ e : Edge, e.layOutSource.Keeps
  arrow : ∀ e : Edge, e.layOutArrow.Keeps
  edge : ∀ e : Edge, e.layOut.Keeps
  chain : ∀ edges : List Edge, (Edge.layOutChain edges).Keeps
  edges : ∀ path edges index edgePath, (Key.layOutEdges path edges index edgePath).Keeps
  subject : ∀ marker path edges index edgePath,
    (Key.layOutSubject marker path edges index edgePath).Keeps
  field : ∀ edgePath subject, (Key.layOutField edgePath subject).Keeps
  primary : ∀ primary : Option Scalar, (Key.layOutPrimary primary).Keeps
  value : ∀ v : Value, v.layOut.Keeps
  row : ∀ (lead : Nat → List Doc) (nodes : List Node) (order : List Nat),
    (row lead (Node.layOuts nodes) order).Keeps
  array : ∀ a : ArrayLit, a.layOut.Keeps
  map : ∀ m : MapLit, m.layOut.Keeps
  key : ∀ k : Key, k.layOut.Keeps
  printed : ∀ value : Option Value, (Value.layOutPrinted? value).Keeps
  node : ∀ node : Node, node.layOut.Keeps

theorem Layout.contextKept : ContextKept where
  asKey inner := keeps_of_run fun ctx => run_asKey inner ctx
  string s := keeps_of_run fun ctx => s.run_layOut ctx
  unquoted pieces := keeps_of_run fun ctx => Piece.run_layOutUnquoted ctx pieces
  doubleQuoted pieces := keeps_of_run fun ctx => Piece.run_layOutDoubleQuoted ctx pieces
  pieces escape opening pieces := keeps_of_run fun ctx => Piece.run_layOut escape opening ctx pieces
  substitution reference := keeps_of_run fun ctx => reference.run_layOut ctx
  path path := keeps_of_run fun ctx => path.run_layOut ctx
  segments segments := keeps_of_run fun ctx => StringLit.run_layOutSegments ctx segments
  scalar s := s.yields_layOut.keeps
  imported file := keeps_of_run fun ctx => file.run_layOut ctx
  source e := keeps_of_run fun ctx => e.run_layOutSource ctx
  arrow e := keeps_of_run fun ctx => e.run_layOutArrow ctx
  edge e := keeps_of_run fun ctx => e.run_layOut ctx
  chain edges := keeps_of_run fun ctx => Edge.run_layOutChain ctx edges
  edges path edges index edgePath :=
    keeps_of_run fun ctx => Key.run_layOutEdges ctx path edges index edgePath
  subject marker path edges index edgePath :=
    keeps_of_run fun ctx => Key.run_layOutSubject ctx marker path edges index edgePath
  field edgePath subject := keeps_of_run fun ctx => Key.run_layOutField ctx edgePath subject
  primary primary := (Key.yields_layOutPrimary primary).keeps
  value v := v.yields_layOut.keeps
  row lead nodes order := (yields_row lead (Node.yields_layOuts nodes) order).keeps
  array a := a.yields_layOut.keeps
  map m := m.yields_layOut.keeps
  key k := k.yields_layOut.keeps
  printed value := (Value.yields_layOutPrinted? value).keeps
  node node := node.yields_layOut.keeps

/-- Strings, scalars and values are laid out like the nodes that they become. -/
structure Layout.DispatchAgrees : Prop where
  string : ∀ s : StringLit, (Node.ofString s).layOut = s.layOut
  scalar : ∀ s : Scalar, (Node.ofScalar s).layOut = s.layOut
  value : ∀ v : Value, (Node.ofValue v).layOut = v.layOut

/-- **The context of a key does not leak.**  No part of a tree leaves another context behind
than it finds; a string, a scalar or a value is laid out like the node that it becomes; laid out
in the context of values, a node has its document; and so the text of a key is put together from
its punctuation and the texts that its parts have as nodes on their own. -/
theorem Key.contextKept_and_format_eq_spelling :
    Layout.ContextKept ∧ Layout.DispatchAgrees ∧
      (∀ node : Node, node.layOut.run .value = (node.toDoc, .value)) ∧
      ∀ (i : Indentation) (k : Key), (Node.key k).format i = k.spelling (Node.format i) :=
  ⟨Layout.contextKept,
    ⟨Node.layOut_ofString, Node.layOut_ofScalar, Node.layOut_ofValue⟩,
    fun node => Prod.ext node.yields_layOut.content (node.yields_layOut.keeps .value),
    fun i k => k.format_key_eq_spelling i⟩

end DiagramText
