import DiagramText.Proofs.BareSpelling
import DiagramText.Proofs.TreeParts

/-!
# What the document of a tree is assembled from

The layout of a tree never writes down a document as such.  It starts from texts and line breaks,
and puts them together by the operations on documents: one after the other, or indented.
`Doc.Assembled p` says that a document came about in this way, from texts whose characters have
the property `p`.  It speaks of how a document was made, and what the operations keep is then
shown by an induction on that, with no tree in sight.

## Which characters get into a text

Almost every text on its way into a document goes through something that takes care of line
feeds.  A string that stands in quotes or without them is escaped; the text of a comment, or of a
block that is spread over several lines, is cut at its line feeds.  What is left are the
**verbatim** texts (`Part.verbatim`): numbers, directories, arrows, the tag and the quote of a
block, and the text of a block or of a block comment that stood on one line of a source.

Whether the last ones hold a line feed is not looked at.  The layout relies on the span, and a
tree whose spans do not fit its texts can say that a text of two lines stood on one.

So the documents of a tree are assembled from texts of two kinds: those without a line feed, and
those whose characters come from verbatim texts (`Node.assembled_toDoc`).
-/

namespace DiagramText

/-! ## Assembled documents -/

namespace Text

variable {p : Char → Prop}

theorem forall_mem_toList_append {s t : String} :
    (∀ c ∈ (s ++ t).toList, p c) ↔ (∀ c ∈ s.toList, p c) ∧ ∀ c ∈ t.toList, p c := by
  rw [String.toList_append, List.forall_mem_append]

/-- What holds of every character but the line feed holds of the characters of a text without
one. -/
theorem forall_mem_of_notMem (hp : ∀ c, c ≠ '\n' → p c) {cs : List Char} (h : '\n' ∉ cs) :
    ∀ c ∈ cs, p c :=
  fun c hc => hp c fun hnewline => h (hnewline ▸ hc)

end Text

namespace Doc

/-- A document that the operations put together from line breaks and from texts whose characters
have a property. -/
inductive Assembled (p : Char → Prop) : Doc → Prop
  | ofString {s : String} (h : ∀ c ∈ s.toList, p c) : Assembled p (ofString s)
  | hardLine : Assembled p hardLine
  | bareLine : Assembled p bareLine
  | append {a b : Doc} (ha : Assembled p a) (hb : Assembled p b) : Assembled p (a ++ b)
  | nest {d : Doc} (h : Assembled p d) : Assembled p d.nest

variable {p : Char → Prop}

theorem additive_assembled : Additive (Assembled p) where
  nil := .ofString (s := "") (by simp)
  append := .append

section Texts

variable (hp : ∀ c, c ≠ '\n' → p c)

include hp

/-- A text without a line feed may be used. -/
theorem assembled_of_notMem {s : String} (h : '\n' ∉ s.toList) : Assembled p (ofString s) :=
  .ofString (Text.forall_mem_of_notMem hp h)

theorem spacing_assembled : Spacing (Assembled p) where
  space := assembled_of_notMem hp (by decide +kernel)
  semicolon := assembled_of_notMem hp (by decide +kernel)
  hardLine := .hardLine
  bareLine := .bareLine

/-- The lines of a text have no line feeds. -/
theorem assembled_of_mem_onNewLines {s : String} : ∀ d ∈ onNewLines s, Assembled p d := by
  rw [onNewLines, List.forall_mem_flatMap]
  intro line hline
  rw [onNewLine]
  split
  · rw [List.forall_mem_singleton]
    exact .bareLine
  · rw [List.forall_mem_cons, List.forall_mem_singleton]
    exact ⟨.hardLine, assembled_of_notMem hp (Text.newline_notMem_of_mem_lines hline)⟩

end Texts

end Doc

open Doc

/-! ## Escaped texts and verbatim texts -/

/-- A whole string without quotes is written without line feeds. -/
theorem Escape.newline_notMem_unquoted (ctx : Context) (s : String) :
    '\n' ∉ (unquoted ctx s).toList := by
  by_cases hempty : s = ""
  · rw [hempty, toList_unquoted_empty]
    decide
  · cases hnull : Text.isNull s with
    | true =>
        rw [toList_unquoted_of_isNull hnull, List.mem_cons, not_or]
        refine ⟨by decide, fun hnewline => ?_⟩
        have hplain : ctx.isSpecial '\n' = false := not_isSpecial_of_isNull hnull '\n' hnewline
        exact absurd hplain (by cases ctx <;> decide)
    | false =>
        rw [toList_unquoted hempty hnull]
        exact newline_notMem_unquotedChars ctx true s.toList

/-- Whether a span is that of a piece that stood on one line of a source. -/
def Span.isSetOneLine (span : Span) : Bool := !span.isUnset && span.isOneLine

theorem Span.isSetOneLine_iff (span : Span) :
    span.isSetOneLine = true ↔ span.isUnset = false ∧ span.isOneLine = true := by
  simp [isSetOneLine]

/-- A block comment that is laid out on one line stood on one line of a source, or has no line
feed. -/
theorem Comment.isSetOneLine_of_isInline {c : Comment} (h : c.isInline = true) :
    c.span.isSetOneLine = true ∨ '\n' ∉ c.text.toList := by
  rw [isInline] at h
  split at h
  · rw [Bool.not_eq_true'] at h
    exact .inr ((Text.hasNewline_eq_false_iff _).mp h)
  · rename_i hset
    exact .inl ((Span.isSetOneLine_iff _).mpr ⟨Bool.eq_false_iff.mpr hset, h⟩)

/-- A block string that is laid out on one line stood on one line of a source and keeps its text,
or has no line feed. -/
theorem BlockString.isSetOneLine_of_not_isSpread {b : BlockString} (h : b.isSpread = false) :
    b.span.isSetOneLine = true ∧ b.content = b.text ∨ '\n' ∉ b.content.toList := by
  rw [isSpread] at h
  rw [content]
  split at h
  · rename_i hunset
    have hnewline : '\n' ∉ b.text.toList := (Text.hasNewline_eq_false_iff _).mp h
    rw [if_pos hunset, Text.toList_trim]
    exact .inr fun hmem => hnewline ((Text.trimChars_infix _).subset hmem)
  · rename_i hset
    rw [if_neg hset, Span.isSetOneLine_iff]
    exact .inl ⟨⟨Bool.eq_false_iff.mpr hset, by simpa using h⟩, rfl⟩

/-- The texts of a part that are printed as they are, neither escaped nor cut into lines. -/
def Part.verbatim : Part → List String
  | .string (.block content) =>
      content.tag :: content.quote ::
        (if content.span.isSetOneLine then [content.text] else [])
  | .string _ => []
  | .number raw => [raw]
  | .directory name => [name]
  | .arrow head => [head]
  | .comment content =>
      match content.style with
      | .line => []
      | .block => if content.span.isSetOneLine then [content.text] else []
  | .array _ => []
  | .map _ _ => []

/-- The texts of a tree that are printed as they are. -/
def Node.verbatim (node : Node) : List String := node.parts.flatMap Part.verbatim

section Parts

variable {p : Char → Prop}

variable (hp : ∀ c, c ≠ '\n' → p c)

include hp

/-- Brackets add nothing but their own texts and a line break. -/
theorem Brackets.assembled_enclose {b : Brackets}
    (hb : '\n' ∉ (b.opening ++ b.padding ++ b.closing).toList) (oneLine : Bool)
    {parts : List Doc} (hparts : ∀ d ∈ parts, d.Assembled p) :
    (b.enclose oneLine parts).Assembled p := by
  have htexts := Text.forall_mem_of_notMem hp hb
  simp only [Text.forall_mem_toList_append] at htexts
  obtain ⟨⟨hopening, hpadding⟩, hclosing⟩ := htexts
  have hcontent : (concat parts).Assembled p := additive_assembled.concat hparts
  rw [enclose]
  split
  · exact .ofString (Text.forall_mem_toList_append.mpr ⟨hopening, hclosing⟩)
  · split
    · exact additive_assembled.surround
        (.ofString (Text.forall_mem_toList_append.mpr ⟨hopening, hpadding⟩)) hcontent
        (.ofString (Text.forall_mem_toList_append.mpr ⟨hpadding, hclosing⟩))
    · exact additive_assembled.surround (.ofString hopening) hcontent.nest
        (.append .hardLine (.ofString hclosing))

theorem ArrayLit.assembled_docOf {span : Span} {es : List Entry}
    (h : ∀ e ∈ es, e.doc.Assembled p) : (docOf span es).Assembled p :=
  Brackets.assembled_enclose hp (b := Brackets.square) (by decide +kernel) _
    (forall_mem_docs (spacing_assembled hp) h)

theorem MapLit.assembled_docOf {span : Span} {isFile : Bool} {es : List Entry}
    (h : ∀ e ∈ es, e.doc.Assembled p) : (docOf span isFile es).Assembled p := by
  have hparts : ∀ d ∈ (arrange isFile (isInline span isFile) es).flatMap Placed.docs,
      d.Assembled p :=
    forall_mem_docs (spacing_assembled hp) h
  rw [docOf]
  split
  · rw [fileDoc]
    split
    · exact additive_assembled.nil
    · exact .append (additive_assembled.concat hparts) .hardLine
  · exact Brackets.assembled_enclose hp (by decide +kernel) _ hparts

theorem Substitution.assembled_toDoc {path : KeyPath} (h : path.toDoc.Assembled p) (spread : Bool)
    (span : Span) : (toDoc ⟨spread, path, span⟩).Assembled p := by
  rw [toDoc]
  refine additive_assembled.concat ?_
  rw [List.forall_mem_append, List.forall_mem_cons, List.forall_mem_cons,
    List.forall_mem_singleton]
  refine ⟨?_, assembled_of_notMem hp (by decide +kernel), h,
    assembled_of_notMem hp (by decide +kernel)⟩
  cases spread
  · simp
  · rw [if_pos rfl, List.forall_mem_singleton]
    exact assembled_of_notMem hp (by decide +kernel)

theorem EdgeIndex.assembled_toDoc (index : EdgeIndex) : index.toDoc.Assembled p := by
  rw [toDoc]
  split
  · exact assembled_of_notMem hp (by decide +kernel)
  · rename_i number _
    refine assembled_of_notMem hp ?_
    rw [String.toList_append, String.toList_append, List.mem_append, List.mem_append, not_or,
      not_or]
    refine ⟨⟨by decide +kernel, ?_⟩, by decide +kernel⟩
    intro hnewline
    exact absurd (isDigit_of_mem_toString hnewline) (by decide)

/-- The text of a comment is cut at its line feeds, unless it stood on one line. -/
theorem Comment.assembled_toDoc {c : Comment}
    (h : ∀ s ∈ (Part.comment c).verbatim, ∀ d ∈ s.toList, p d) : c.toDoc.Assembled p := by
  obtain ⟨style, text, span⟩ := c
  rw [toDoc]
  cases style with
  | line =>
      refine additive_assembled.join .hardLine ?_
      rw [List.forall_mem_map]
      intro line hline
      exact assembled_of_notMem hp
        (newline_notMem_markedLine (Text.newline_notMem_of_mem_lines hline))
  | block =>
      have hfence : '\n' ∉ fence.toList := by decide +kernel
      have hspace : '\n' ∉ " ".toList := by decide +kernel
      show Doc.Assembled p (if isInline ⟨.block, text, span⟩ then _ else _)
      split
      · rename_i hinline
        have htext : ∀ d ∈ text.toList, p d := by
          rcases isSetOneLine_of_isInline hinline with hset | hnewline
          · exact h text (by simp [Part.verbatim, hset])
          · exact Text.forall_mem_of_notMem hp hnewline
        refine .ofString ?_
        simp only [Text.forall_mem_toList_append]
        exact ⟨⟨⟨⟨Text.forall_mem_of_notMem hp hfence, Text.forall_mem_of_notMem hp hspace⟩,
          htext⟩, Text.forall_mem_of_notMem hp hspace⟩, Text.forall_mem_of_notMem hp hfence⟩
      · refine additive_assembled.concat ?_
        rw [List.forall_mem_append, List.forall_mem_append, List.forall_mem_singleton,
          List.forall_mem_cons, List.forall_mem_singleton]
        exact ⟨⟨assembled_of_notMem hp hfence, assembled_of_mem_onNewLines hp⟩, .hardLine,
          assembled_of_notMem hp hfence⟩

/-- The characters of the quote that is printed are those of the quote of the block, and
pipes. -/
theorem BlockString.forall_mem_safeQuote {b : BlockString} (h : ∀ c ∈ b.quote.toList, p c) :
    ∀ c ∈ b.safeQuote.toList, p c := by
  rw [safeQuote, Block.toList_fence]
  exact Block.forall_mem_fenceChars (hp _ (by decide)) h

/-- The text of a block is cut at its line feeds, unless it stood on one line. -/
theorem BlockString.assembled_toDoc {b : BlockString}
    (h : ∀ s ∈ (Part.string (.block b)).verbatim, ∀ c ∈ s.toList, p c) :
    b.toDoc.Assembled p := by
  rw [Part.verbatim, List.forall_mem_cons, List.forall_mem_cons] at h
  obtain ⟨htag, hquote, hkept⟩ := h
  have hpipe : ∀ c ∈ "|".toList, p c :=
    Text.forall_mem_of_notMem hp (by decide +kernel)
  have hopening : (Doc.ofString b.openFence).Assembled p := by
    refine .ofString ?_
    simp only [openFence, Text.forall_mem_toList_append]
    exact ⟨⟨hpipe, forall_mem_safeQuote hp hquote⟩, htag⟩
  have hclosing : (Doc.ofString b.closeFence).Assembled p := by
    refine .ofString ?_
    rw [closeFence, Text.forall_mem_toList_append]
    exact ⟨forall_mem_safeQuote hp hquote, hpipe⟩
  have hspace : (Doc.ofString " ").Assembled p := assembled_of_notMem hp (by decide +kernel)
  rw [toDoc]
  split
  · have hlines := additive_assembled.concat (assembled_of_mem_onNewLines hp (s := b.content))
    exact .append (.append (.append hopening hlines.nest) .hardLine) hclosing
  · rename_i hinline
    have hcontent : ∀ c ∈ b.content.toList, p c := by
      rcases isSetOneLine_of_not_isSpread (Bool.eq_false_iff.mpr hinline) with
        ⟨hset, heq⟩ | hnewline
      · rw [heq]
        exact hkept b.text (by simp [hset])
      · exact Text.forall_mem_of_notMem hp hnewline
    split
    · exact .append (.append hopening hspace) hclosing
    · exact .append (.append (.append (.append hopening hspace) (.ofString hcontent)) hspace)
        hclosing

/-- A tree has a document that is assembled from its verbatim texts and from texts without a line
feed. -/
theorem Part.ensures_assembled :
    Part.Ensures (fun part => ∀ s ∈ part.verbatim, ∀ c ∈ s.toList, p c) (Doc.Assembled p) where
  toAdditive := additive_assembled
  plain h := by
    refine assembled_of_notMem hp fun hnewline => ?_
    exact absurd (List.all_eq_true.mp h _ hnewline) (by decide)
  unquoted ctx s := assembled_of_notMem hp (Escape.newline_notMem_unquoted ctx s)
  unquotedPiece ctx opening s := by
    refine assembled_of_notMem hp ?_
    rw [Escape.toList_unquotedPiece]
    exact Escape.newline_notMem_unquotedChars ctx opening s.toList
  doubleQuoted _ ctx s := by
    refine assembled_of_notMem hp ?_
    rw [Escape.toList_doubleQuoted]
    exact Escape.newline_notMem_doubleQuotedChars ctx s.toList
  singleQuoted {content _} _ := by
    refine assembled_of_notMem hp ?_
    rw [Escape.toList_singleQuoted]
    exact Escape.newline_notMem_singleQuotedChars content.toList
  block := BlockString.assembled_toDoc hp
  substitution spread span h := Substitution.assembled_toDoc hp h spread span
  number {raw} h := .ofString (h raw (by simp [verbatim]))
  directory {name} h := .ofString (h name (by simp [verbatim]))
  arrow {e} hsource htarget := .ofString <|
    Edge.forall_mem_arrow (hp _ (by decide)) (hsource e.sourceArrow (by simp [verbatim]))
      (htarget e.targetArrow (by simp [verbatim]))
  edgeIndex := EdgeIndex.assembled_toDoc hp
  comment := Comment.assembled_toDoc hp
  array _ := ArrayLit.assembled_docOf hp
  map _ := MapLit.assembled_docOf hp

/-- **How the document of a tree came about.**  It is assembled from texts whose characters have
a property, if the property holds of all characters but the line feed, and of the characters of
the texts that are printed as they are. -/
theorem Node.assembled_toDoc {node : Node} (h : ∀ s ∈ node.verbatim, ∀ c ∈ s.toList, p c) :
    node.toDoc.Assembled p :=
  (Part.ensures_assembled hp).node node fun _ hpart s hs =>
    h s (List.mem_flatMap_of_mem hpart hs)

end Parts

end DiagramText
