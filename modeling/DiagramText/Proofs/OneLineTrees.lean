import DiagramText.Proofs.TextLeaves

/-!
# Trees on one line

Whether a map or an array stands on one line is decided by its own span, without a look at what
is in it.  A map on one line can therefore have an entry that goes over several lines, and then
its text has line breaks in it all the same.  The text of a tree is on one line if this holds of
each of its parts (`Part.isOneLine`): no map is a file, every map, array, block string and block
comment has a span on one line, and no text that is printed as it is has a line feed.  The span of
a part that stands in no source is on one line.

Two things have to be seen, and they are independent of each other.

* **The document has no line breaks** (`Doc.IsUnbroken`).  Line breaks come from separators,
  brackets and fences over several lines, and from comments of several lines.  On one line the
  only separators are nothing and a semicolon.
* **The texts of the document have no line feeds.**  Strings may be full of line feeds; escapes
  spell them out.  This is how every document of a tree is assembled (`Node.assembled_toDoc`).

A document without line breaks has no place where an indentation would be printed, so its text is
the same under every indentation.
-/

namespace DiagramText

/-! ## Documents without line breaks -/

namespace Doc

/-- A document without line breaks. -/
def IsUnbroken (d : Doc) : Prop := ∀ n, ∀ leaf ∈ d.leaves n, leaf.isBreak = false

theorem isUnbroken_ofString (s : String) : (ofString s).IsUnbroken := by
  intro n
  rw [leaves_ofString]
  split
  · simp
  · rw [List.forall_mem_singleton]
    rfl

theorem additive_isUnbroken : Additive IsUnbroken where
  nil := isUnbroken_ofString ""
  append ha hb n := by
    rw [leaves_append, List.forall_mem_append]
    exact ⟨ha n, hb n⟩

variable {d : Doc}

/-- Without line breaks there is nothing to indent. -/
theorem IsUnbroken.print_eq_print (h : d.IsUnbroken) (i j : Indentation) :
    d.print i = d.print j := by
  have hleaf : ∀ leaf ∈ d.leaves 0, leaf.print i = leaf.print j := by
    intro leaf hmem
    cases leaf with
    | hardLine level => exact absurd (h 0 _ hmem) Bool.false_ne_true.symm
    | _ => rfl
  rw [print_eq_render, print_eq_render, render_eq_join_leaves, render_eq_join_leaves,
    List.map_congr_left hleaf]

/-- Without line breaks a line feed could only come from a text. -/
theorem IsUnbroken.newline_notMem_print (h : d.IsUnbroken)
    (htexts : ∀ s, .text s ∈ d.leaves 0 → '\n' ∉ s.toList) (i : Indentation) :
    '\n' ∉ (d.print i).toList := by
  rw [← List.count_eq_zero, count_newline_print i htexts, List.countP_eq_zero]
  intro leaf hmem
  rw [h 0 leaf hmem]
  exact Bool.false_ne_true

end Doc

open Doc

/-! ## Rows on one line -/

/-- On one line an item stands behind nothing or behind a semicolon. -/
theorem Placed.separator_of_mem_inline {items : List Item} {p : Placed} (h : p ∈ inline items) :
    p.separator = .nothing ∨ p.separator = .semicolon := by
  cases items with
  | nil => exact absurd h List.not_mem_nil
  | cons first rest =>
      rw [inline, List.mem_cons, List.mem_map] at h
      rcases h with rfl | ⟨item, -, rfl⟩
      · exact .inl rfl
      · exact .inr rfl

theorem Placed.isUnbroken_of_mem_docs {items : List Item}
    (h : ∀ p ∈ inline items, ∀ e ∈ p.item.entries, e.doc.IsUnbroken) :
    ∀ d ∈ (inline items).flatMap docs, d.IsUnbroken := by
  refine forall_mem_docs_of_separators (isUnbroken_ofString " ") (fun p hp => ?_) h
  rcases separator_of_mem_inline hp with hsep | hsep
  · rw [hsep]
    exact fun d hd => absurd hd List.not_mem_nil
  · rw [hsep, Separator.docs, List.forall_mem_singleton]
    exact isUnbroken_ofString "; "

theorem Brackets.isUnbroken_enclose (b : Brackets) {parts : List Doc}
    (h : ∀ d ∈ parts, d.IsUnbroken) : (b.enclose true parts).IsUnbroken := by
  rw [enclose, if_pos rfl]
  split
  · exact isUnbroken_ofString _
  · exact additive_isUnbroken.surround (isUnbroken_ofString _) (additive_isUnbroken.concat h)
      (isUnbroken_ofString _)

theorem ArrayLit.isUnbroken_docOf {span : Span} {es : List Entry} (hspan : span.isOneLine = true)
    (h : ∀ e ∈ es, e.doc.IsUnbroken) : (docOf span es).IsUnbroken := by
  have hentries : ∀ p ∈ arrange true es, ∀ e ∈ p.item.entries, e.doc.IsUnbroken :=
    fun _ hp e he => h e (mem_of_mem_arrange hp he)
  rw [docOf, hspan]
  exact Brackets.isUnbroken_enclose _ (Placed.isUnbroken_of_mem_docs hentries)

theorem MapLit.isUnbroken_docOf {span : Span} {isFile : Bool} {es : List Entry}
    (hfile : isFile = false) (hspan : span.isOneLine = true) (h : ∀ e ∈ es, e.doc.IsUnbroken) :
    (docOf span isFile es).IsUnbroken := by
  have hentries : ∀ p ∈ arrange false true es, ∀ e ∈ p.item.entries, e.doc.IsUnbroken :=
    fun _ hp e he => h e (mem_of_mem_arrange hp he)
  have hinline : isInline span false = true := by
    rw [isInline, hspan]
    rfl
  rw [docOf, hfile, hinline, if_neg Bool.false_ne_true]
  exact Brackets.isUnbroken_enclose _ (Placed.isUnbroken_of_mem_docs hentries)

/-! ## Blocks and comments on one line -/

theorem BlockString.isSpread_eq_false {b : BlockString} (hspan : b.span.isOneLine = true)
    (htext : Text.hasNewline b.text = false) : b.isSpread = false := by
  rw [isSpread, hspan, htext]
  split <;> rfl

theorem BlockString.isUnbroken_toDoc {b : BlockString} (h : b.isSpread = false) :
    b.toDoc.IsUnbroken :=
  forall_toDoc_of_texts additive_isUnbroken isUnbroken_ofString b fun hspread =>
    absurd (h.symm.trans hspread) Bool.false_ne_true

/-- A comment on one line prints one text: its only line behind the mark, or its text between
fences. -/
theorem Comment.isUnbroken_toDoc {c : Comment} (htext : Text.hasNewline c.text = false)
    (hspan : c.style = .block → c.span.isOneLine = true) : c.toDoc.IsUnbroken := by
  obtain ⟨style, text, span⟩ := c
  rw [toDoc]
  cases style with
  | line =>
      have hline : Text.lines text = [text] := by
        rw [Text.lines, Text.splitLines_of_notMem ((Text.hasNewline_eq_false_iff text).mp htext),
          List.map_singleton, String.ofList_toList]
      show (Doc.join .hardLine ((Text.lines text).map _)).IsUnbroken
      rw [hline]
      exact isUnbroken_ofString _
  | block =>
      have hinline : isInline ⟨.block, text, span⟩ = true := by
        rw [isInline, hspan rfl, htext]
        split <;> rfl
      show Doc.IsUnbroken (if isInline ⟨.block, text, span⟩ then _ else _)
      rw [if_pos hinline]
      exact isUnbroken_ofString _

/-! ## The parts of a tree on one line -/

/-- Whether a part of a tree stands on one line, and is printed without a line feed if it is
printed as it is. -/
def Part.isOneLine : Part → Bool
  | .string (.block content) =>
      content.span.isOneLine && !Text.hasNewline content.text && !Text.hasNewline content.tag &&
        !Text.hasNewline content.quote
  | .string _ => true
  | .number raw => !Text.hasNewline raw
  | .directory name => !Text.hasNewline name
  | .arrow head => !Text.hasNewline head
  | .comment content =>
      !Text.hasNewline content.text && (content.style == .line || content.span.isOneLine)
  | .array span => span.isOneLine
  | .map span isFile => !isFile && span.isOneLine

theorem Part.ensures_isUnbroken :
    Part.Ensures (fun part => part.isOneLine = true) Doc.IsUnbroken := by
  refine .of_texts additive_isUnbroken isUnbroken_ofString (fun content h => ?_)
    (fun content h => ?_) (fun h => ArrayLit.isUnbroken_docOf h) (fun h => ?_)
  · simp only [isOneLine, Bool.and_eq_true, Bool.not_eq_true'] at h
    exact BlockString.isUnbroken_toDoc (BlockString.isSpread_eq_false h.1.1.1 h.1.1.2)
  · simp only [isOneLine, Bool.and_eq_true, Bool.or_eq_true, Bool.not_eq_true'] at h
    refine Comment.isUnbroken_toDoc h.1 fun hstyle => h.2.resolve_left ?_
    rw [hstyle]
    exact Bool.false_ne_true
  · rw [isOneLine, Bool.and_eq_true, Bool.not_eq_true'] at h
    exact MapLit.isUnbroken_docOf h.1 h.2

/-- What is printed as it is has no line feed in a part on one line. -/
theorem Part.newline_notMem_of_mem_verbatim {part : Part} (h : part.isOneLine = true) :
    ∀ s ∈ part.verbatim, '\n' ∉ s.toList := by
  simp only [← Text.hasNewline_eq_false_iff]
  cases part with
  | string content =>
      cases content with
      | block content =>
          simp only [isOneLine, Bool.and_eq_true, Bool.not_eq_true'] at h
          rw [verbatim, List.forall_mem_cons, List.forall_mem_cons]
          refine ⟨h.1.2, h.2, ?_⟩
          split
          · rw [List.forall_mem_singleton]
            exact h.1.1.2
          · simp
      | _ => simp [verbatim]
  | comment content =>
      simp only [isOneLine, Bool.and_eq_true, Bool.not_eq_true'] at h
      rw [verbatim]
      split
      · simp
      · split
        · rw [List.forall_mem_singleton]
          exact h.1
        · simp
  | array span => simp [verbatim]
  | map span isFile => simp [verbatim]
  | _ =>
      rw [verbatim, List.forall_mem_singleton]
      rwa [isOneLine, Bool.not_eq_true'] at h

/-- **A tree on one line prints on one line.**  If each part of a tree stands on one line, then
its text has no line feed, whatever its strings say, and is the same under every indentation. -/
theorem Node.newline_notMem_format (node : Node)
    (h : ∀ part ∈ node.parts, part.isOneLine = true) :
    (∀ i, '\n' ∉ (node.format i).toList) ∧ ∀ i j, node.format i = node.format j := by
  have hunbroken : node.toDoc.IsUnbroken := Part.ensures_isUnbroken.node node h
  have hassembled : node.toDoc.Assembled (· ≠ '\n') := by
    refine node.assembled_toDoc (fun _ hc => hc) fun s hs c hc hnewline => ?_
    obtain ⟨part, hpart, hverbatim⟩ := List.mem_flatMap.mp hs
    exact Part.newline_notMem_of_mem_verbatim (h part hpart) s hverbatim (hnewline ▸ hc)
  have htexts : ∀ s, .text s ∈ node.toDoc.leaves 0 → '\n' ∉ s.toList :=
    fun s hs hnewline => hassembled.forall_mem_text hs _ hnewline rfl
  exact ⟨hunbroken.newline_notMem_print htexts, hunbroken.print_eq_print⟩

/-- A map on one line with a comment, a group of boards in front of a key, an array in an array,
blocks with and without a span, an edge, and line feeds in strings of each form. -/
def Node.crowdedLine : Node :=
  .value (.map ⟨[
    .comment ⟨.block, "note", .ofLine 4⟩,
    .key { Key.ofPath (.ofTexts ["layers"]) with
      value := some (.map (.scope [.key (.ofPath (.ofTexts ["x\ny"]))])) },
    .key { Key.ofPath ⟨[.doubleQuoted [.text "x\ny"] .unset, .singleQuoted "x\ny" .unset],
        .unset⟩ with
      value := some (.array ⟨[
        .value (.scalar (.number "1e3" .unset)),
        .value (.array ⟨[.value (.imported ⟨true, "../", .ofTexts ["f\ng"], .unset⟩)], .unset⟩),
        .value (.scalar (.string (.block ⟨"a | b", "md", "", .unset⟩))),
        .value (.scalar (.string (.block ⟨" c ", "", "`", .ofLine 4⟩)))], .ofLine 4⟩) },
    .key (.ofEdges [⟨some (.ofTexts ["a"]), "<", some (.ofTexts ["b\n"]), ">", .unset⟩]),
    .comment ⟨.line, "end", .ofLines 4 5⟩], .ofLine 4, false⟩)

/-- The condition holds of a map whose strings are full of line feeds. -/
theorem Node.newline_notMem_format_crowdedLine :
    Part.string (.bare "x\ny") ∈ crowdedLine.parts ∧
      (∀ part ∈ crowdedLine.parts, part.isOneLine = true) ∧
      (∀ i, '\n' ∉ (crowdedLine.format i).toList) ∧
      ∀ i j, crowdedLine.format i = crowdedLine.format j := by
  have hmem : Part.string (.bare "x\ny") ∈ crowdedLine.parts :=
    List.mem_of_getElem? (i := 4) rfl
  have hparts : ∀ part ∈ crowdedLine.parts, part.isOneLine = true := by decide +kernel
  exact ⟨hmem, hparts, newline_notMem_format crowdedLine hparts⟩

end DiagramText
