import DiagramText.Format
import DiagramText.Proofs.DocText

/-!
# The text of a key

A key prints up to seven parts, and most keys have two of them.  This file says what the text
of a key is, part by part, so that what follows about keys need not look at documents again.

Whether a dot stands in front of the path of a field depends on whether anything has been
printed before it.  For a key with a path this is no question: **every string prints at least
one character** (`StringLit.chars_toDoc_ne_nil`), the empty one included, and so does every
path that has a segment.
-/

namespace DiagramText

/-! ## Texts as characters -/

namespace Node

theorem toList_format (i : Indentation) (node : Node) :
    (node.format i).toList = Doc.chars i 0 node.toDoc := by
  rw [format_eq_render, Doc.chars]

/-- Two nodes have the same text if their documents have the same characters. -/
theorem format_eq_iff_chars (i : Indentation) (a b : Node) :
    a.format i = b.format i ↔ Doc.chars i 0 a.toDoc = Doc.chars i 0 b.toDoc := by
  rw [← String.toList_inj, toList_format, toList_format]

end Node

/-! ## Every string prints something -/

section Nonempty

variable (i : Indentation) (n : Nat)

theorem Substitution.chars_toDoc_ne_nil (reference : Substitution) :
    Doc.chars i n reference.toDoc ≠ [] := by
  obtain ⟨spread, path, span⟩ := reference
  rw [Substitution.toDoc, Doc.chars_concat]
  simp

/-- Pieces that are not all empty texts print something. -/
theorem Piece.flatMap_chars_docs_ne_nil {escape : Bool → String → String}
    (hescape : ∀ opening s, s ≠ "" → escape opening s ≠ "") (opening : Bool)
    {pieces : List Piece} (h : pieces.all Piece.isEmpty = false) :
    (Piece.docs escape opening pieces).flatMap (Doc.chars i n) ≠ [] := by
  induction pieces with
  | nil => exact absurd h (by simp)
  | cons piece rest ih =>
      cases piece with
      | text content =>
          by_cases hcontent : content = ""
          · subst hcontent
            rw [Piece.docs, if_pos (by decide)]
            exact ih (by simpa [Piece.isEmpty] using h)
          · have hwritten : (escape opening content).toList ≠ [] := by
              simpa using hescape opening content hcontent
            rw [Piece.docs, if_neg (by simpa using hcontent), List.flatMap_cons,
              Doc.chars_ofString]
            exact List.append_ne_nil_of_left_ne_nil hwritten _
      | substitution reference =>
          rw [Piece.docs, List.flatMap_cons]
          exact List.append_ne_nil_of_left_ne_nil (reference.chars_toDoc_ne_nil i n) _

theorem BlockString.chars_toDoc_ne_nil (b : BlockString) : Doc.chars i n b.toDoc ≠ [] := by
  have hopen : (openFence b).toList ≠ [] := by simp [openFence]
  rw [toDoc]
  split
  · simp [hopen]
  · split <;> simp [hopen]

/-- **Every string prints something**, in each of the four forms. -/
theorem StringLit.chars_toDoc_ne_nil (ctx : Context) (s : StringLit) :
    Doc.chars i n (s.toDoc ctx) ≠ [] := by
  cases s with
  | unquoted pieces span =>
      rw [toDoc]
      cases hwhole : Piece.wholeText? pieces with
      | some content => simpa using Escape.unquoted_ne_empty ctx (Keyword.canonical content)
      | none =>
          have hpieces : pieces.all Piece.isEmpty = false := by
            rw [← Bool.not_eq_true]
            intro hall
            rw [Piece.wholeText?.eq_def] at hwhole
            split at hwhole
            · exact absurd hwhole (by simp)
            · rw [if_pos hall] at hwhole
              exact absurd hwhole (by simp)
          rw [Doc.chars_concat]
          refine Piece.flatMap_chars_docs_ne_nil i n ?_ true hpieces
          intro opening content hcontent hwritten
          have hchars := congrArg String.toList hwritten
          rw [Escape.toList_unquotedPiece, String.toList_empty,
            Escape.unquotedChars_eq_nil_iff] at hchars
          exact hcontent (by simpa using hchars)
  | doubleQuoted pieces span =>
      rw [toDoc, Doc.chars_surround]
      simp
  | singleQuoted content span =>
      rw [chars_singleQuoted]
      simp
  | block content =>
      rw [toDoc]
      exact content.chars_toDoc_ne_nil i n

/-- The segments of a path behind the first, each with the dot in front of it. -/
def KeyPath.furtherChars (path : KeyPath) : List Char :=
  path.segments.tail.flatMap fun segment => '.' :: Doc.chars i n (segment.toDoc .key)

/-- A path prints its first segment, and each further one behind a dot. -/
theorem KeyPath.chars_toDoc_of_head? {path : KeyPath} {first : StringLit}
    (h : path.segments.head? = some first) :
    Doc.chars i n path.toDoc = Doc.chars i n (first.toDoc .key) ++ path.furtherChars i n := by
  obtain ⟨segments, span⟩ := path
  obtain ⟨others, hsegments⟩ := List.head?_eq_some_iff.mp h
  rw [furtherChars, KeyPath.chars_toDoc]
  rw [show segments = first :: others from hsegments, List.map_cons, Text.intercalate_cons_eq,
    List.flatMap_map]
  rfl

/-- Every path with a segment prints something. -/
theorem KeyPath.chars_toDoc_ne_nil {path : KeyPath} {first : StringLit}
    (h : path.segments.head? = some first) : Doc.chars i n path.toDoc ≠ [] := by
  rw [chars_toDoc_of_head? i n h]
  exact List.append_ne_nil_of_left_ne_nil (first.chars_toDoc_ne_nil i n .key) _

theorem EdgeIndex.chars_toDoc_ne_nil (index : EdgeIndex) : Doc.chars i n index.toDoc ≠ [] := by
  rw [toDoc]
  split <;> simp

end Nonempty

/-! ## The parts of a key -/

namespace Key

variable (i : Indentation) (n : Nat)

/-- The same key without its value. -/
def withoutValue (k : Key) : Key := { k with value := none }

/-- A key prints its value behind everything else. -/
theorem chars_toDoc_eq_append_value (k : Key) :
    Doc.chars i n k.toDoc = Doc.chars i n k.withoutValue.toDoc ++
      (valueDocs k.primary.isSome (Value.printed? k.value)).flatMap (Doc.chars i n) := by
  obtain ⟨marker, path, edges, index, edgePath, primary, value, span⟩ := k
  rw [withoutValue, toDoc, toDoc, docOf, docOf, Doc.chars_concat, Doc.chars_concat, Value.printed?,
    List.flatMap_append, valueDocs, List.append_nil]

/-- Without edges, the subject of a key is its marker, its path and its index. -/
theorem flatMap_chars_subjectDocs (marker : Option Marker) (path : KeyPath)
    (index : Option EdgeIndex) (edgePath : Option KeyPath) :
    (subjectDocs marker (some path) [] index edgePath).flatMap (Doc.chars i n) =
      (marker.toList.flatMap fun m => m.text.toList) ++ Doc.chars i n path.toDoc ++
        (index.toList.flatMap fun index => Doc.chars i n index.toDoc) := by
  simp [subjectDocs, edgeDocs, List.flatMap_map]

/-- Behind a subject that prints something, the path of a field has a dot in front of it. -/
theorem flatMap_chars_fieldDocs {subject : List Doc} (h : Doc.allNil subject = false)
    (edgePath : Option KeyPath) :
    (fieldDocs subject edgePath).flatMap (Doc.chars i n) =
      edgePath.toList.flatMap fun field => '.' :: Doc.chars i n field.toDoc := by
  cases edgePath with
  | none => rfl
  | some field => simp [fieldDocs, h]

theorem flatMap_chars_primaryDocs (primary : Option Scalar) :
    (primaryDocs primary).flatMap (Doc.chars i n) =
      primary.toList.flatMap fun content => ':' :: ' ' :: Doc.chars i n content.toDoc := by
  cases primary with
  | none => rfl
  | some content => simp [primaryDocs]

/-- **A key without edges that prints no value** prints its marker, its path, its index, the
path of a field behind a dot, and its short value behind a colon. -/
theorem chars_toDoc_of_path {k : Key} {path : KeyPath} {first : StringLit}
    (hpath : k.path = some path) (hfirst : path.segments.head? = some first)
    (hedges : k.edges = []) (hvalue : Value.printed? k.value = none) :
    Doc.chars i n k.toDoc =
      (k.marker.toList.flatMap fun marker => marker.text.toList) ++ Doc.chars i n path.toDoc ++
        (k.edgeIndex.toList.flatMap fun index => Doc.chars i n index.toDoc) ++
        (k.edgePath.toList.flatMap fun field => '.' :: Doc.chars i n field.toDoc) ++
        (k.primary.toList.flatMap fun content => ':' :: ' ' :: Doc.chars i n content.toDoc) := by
  obtain ⟨marker, _, _, index, edgePath, primary, value, span⟩ := k
  subst hpath hedges
  have hsubject : Doc.allNil (subjectDocs marker (some path) [] index edgePath) = false := by
    rw [← Bool.not_eq_true, Doc.allNil_iff]
    intro hall
    refine Doc.ne_nil_of_chars_ne i n (path.chars_toDoc_ne_nil i n hfirst) (hall _ ?_)
    simp [subjectDocs]
  rw [toDoc, docOf, show Value.printed? value = none from hvalue, valueDocs, List.append_nil,
    Doc.chars_concat, List.flatMap_append, List.flatMap_append, flatMap_chars_subjectDocs,
    flatMap_chars_fieldDocs i n hsubject, flatMap_chars_primaryDocs]

end Key
end DiagramText
