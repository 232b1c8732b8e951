import DiagramText.Block.Layout
import DiagramText.Doc.Printer
import DiagramText.Proofs.DocText

/-!
# Reading a block string back

The text of a block string is printed as it is, so a reader has nothing but the fences
to tell where the block ends, and nothing but the layout to tell which blanks belong to
the text.  This file shows that this is enough.

## Where the block ends

The fence was chosen with an eye on the text of the block alone (`Block.fence`).  The
reader looks for it in more than that: in the blanks that the layout puts around the
text, in the indentation of every line, and in the closing fence itself, where it might
find the fence too early.  All of these seams have a blank in them, and a quote has no
blank, so an occurrence of the closing fence cannot reach across
(`Text.not_infix_append_blank`).  What lies between two blanks of the layout is a
stretch of the text of the block, the tag in front of it or the quote behind it, and the
closing fence stands in none of them.

**The first closing fence behind the opening one is the last thing that is printed**,
whatever follows the block, and whether or not the reader takes the tag for a part of
what it searches.

## What the text was

On one line it stands between two spaces.  Over several lines, `Block.lines?` takes the
line breaks next to the fences away, cuts at the line feeds, and takes one level of
indentation more than that of the fences off each line that is not empty.

**The lines that it finds are those of the text** (`Block.lines?_spread`), blank lines
and leading blanks included.
-/

namespace DiagramText

/-! ## Occurrences across blanks -/

namespace Text

variable {p a b : List Char}

/-- A text without blanks does not stand across a blank. -/
theorem not_infix_append_blank (hp : ∀ c ∈ p, isBlank c = false) {blank : Char}
    (hblank : isBlank blank = true) (ha : ¬p <:+: a) (hb : ¬p <:+: b) :
    ¬p <:+: a ++ blank :: b := by
  have hnotMem : blank ∉ p := by
    intro hmem
    rw [hp blank hmem] at hblank
    exact Bool.false_ne_true hblank
  intro h
  rw [List.infix_append_iff, List.infix_cons_iff] at h
  rcases h with h | (h | h) | ⟨p₁, p₂, rfl, h₁, h₂⟩
  · exact ha h
  · rcases List.prefix_cons_iff.mp h with rfl | ⟨rest, rfl, -⟩
    · exact hb List.nil_infix
    · exact hnotMem List.mem_cons_self
  · exact hb h
  · -- the part of `p` behind the seam would start with the blank
    rcases List.prefix_cons_iff.mp h₂ with rfl | ⟨rest, rfl, -⟩
    · rw [List.append_nil] at ha
      exact ha h₁.isInfix
    · exact hnotMem (List.mem_append_right _ List.mem_cons_self)

/-- Blanks in front of a text make no place for a text without blanks. -/
theorem not_infix_blanks_append (hp : ∀ c ∈ p, isBlank c = false) {blanks : List Char}
    (hblanks : ∀ c ∈ blanks, isBlank c = true) (hb : ¬p <:+: b) : ¬p <:+: blanks ++ b := by
  induction blanks with
  | nil => exact hb
  | cons blank blanks ih =>
      rw [List.forall_mem_cons] at hblanks
      have hnil : ¬p <:+: [] := by
        rw [List.infix_nil]
        rintro rfl
        exact hb List.nil_infix
      exact not_infix_append_blank hp hblanks.1 hnil (ih hblanks.2)

/-- The search for a mark stops at the mark behind a text, if the mark less its last
character does not complete an earlier one. -/
theorem dropInfix?_append_mark {quote : List Char} {last : Char} {text : List Char}
    (h : ¬quote ++ [last] <:+: text ++ quote) (rest : List Char) :
    (text ++ (quote ++ [last]) ++ rest).dropInfix? (quote ++ [last]) = some (text, rest) := by
  rw [List.dropInfix?_eq_some_iff]
  refine ⟨⟨_, rfl, beq_self_eq_true _⟩, ?_⟩
  intro before mark after heq hmark
  rw [beq_iff_eq] at hmark
  subst hmark
  by_contra hshort
  -- an occurrence that starts earlier also ends earlier, so the last character is not in it
  have hbefore : before ++ (quote ++ [last]) <+: text ++ (quote ++ [last]) ++ rest :=
    ⟨after, heq.symm⟩
  have htext : text ++ quote <+: text ++ (quote ++ [last]) ++ rest :=
    ⟨last :: rest, by simp⟩
  have hle : (before ++ (quote ++ [last])).length ≤ (text ++ quote).length := by
    simp only [List.length_append, List.length_singleton]
    omega
  have hearly := List.prefix_of_prefix_length_le hbefore htext hle
  exact h ((List.suffix_append before _).isInfix.trans hearly.isInfix)

/-! ## Cutting joined lines -/

theorem splitLines_append_newline {line : List Char} (h : '\n' ∉ line) (rest : List Char) :
    splitLines (line ++ '\n' :: rest) = line :: splitLines rest := by
  induction line with
  | nil => exact splitLines_newline rest
  | cons c line ih =>
      rw [List.mem_cons, not_or] at h
      rw [List.cons_append, splitLines, if_neg (Ne.symm h.1), ih h.2]

/-- Cutting undoes joining. -/
theorem splitLines_joinLines {lines : List (List Char)} (hne : lines ≠ [])
    (h : ∀ line ∈ lines, '\n' ∉ line) : splitLines (joinLines lines) = lines := by
  obtain ⟨line, more, rfl⟩ := List.exists_cons_of_ne_nil hne
  induction more generalizing line with
  | nil => exact splitLines_of_notMem (h line List.mem_cons_self)
  | cons next more ih =>
      rw [List.forall_mem_cons] at h
      rw [joinLines, splitLines_append_newline h.1, ih next (by simp) h.2]

/-- Each line is a stretch of the joined text. -/
theorem infix_joinLines_of_mem {line : List Char} {lines : List (List Char)} (h : line ∈ lines) :
    line <:+: joinLines lines := by
  induction lines with
  | nil => simp at h
  | cons first more ih =>
      cases more with
      | nil =>
          rw [List.mem_singleton.mp h]
          exact List.infix_rfl
      | cons next more =>
          rw [joinLines]
          rcases List.mem_cons.mp h with rfl | h
          · exact (List.prefix_append _ _).isInfix
          · exact (ih h).trans (List.suffix_append_of_suffix (List.suffix_cons _ _)).isInfix

/-- A line break in front of every line. -/
theorem flatMap_newline_eq (f : List Char → List Char) {lines : List (List Char)}
    (hne : lines ≠ []) :
    (lines.flatMap fun line => '\n' :: f line) = '\n' :: joinLines (lines.map f) := by
  obtain ⟨line, more, rfl⟩ := List.exists_cons_of_ne_nil hne
  rw [List.flatMap_cons, List.map_cons, joinLines_cons, List.flatMap_map, List.cons_append]

/-- If a line can be read back from what is written for it, then so can a row of lines. -/
theorem mapM_map_eq_some {read : List Char → Option (List Char)} {write : List Char → List Char}
    (h : ∀ line, read (write line) = some line) (lines : List (List Char)) :
    (lines.map write).mapM read = some lines := by
  have hinverse : read ∘ write = pure := funext h
  rw [List.mapM_map, hinverse, List.mapM_pure, List.map_id']
  rfl

end Text

/-! ## The fence that was chosen -/

namespace Block

open Text

/-- The closing fence does not stand in the text that it was chosen for. -/
theorem closing_not_infix (content quote : List Char) :
    ¬fenceChars content quote ++ [delimiter] <:+: content := by
  have hclear := not_collides_fenceChars content quote
  rw [collides, Bool.or_eq_false_iff] at hclear
  rw [← Text.occursIn_iff, hclear.2]
  exact Bool.false_ne_true

/-! ## Lines at a level -/

/-- A line as it is printed at a level: without characters it gets no indentation. -/
def indented (i : Indentation) (n : Nat) (line : List Char) : List Char :=
  if line.isEmpty then [] else i.chars n ++ line

/-- Takes the indentation of a level off a line that is not empty. -/
def outdent? (i : Indentation) (n : Nat) (line : List Char) : Option (List Char) :=
  if line.isEmpty then some [] else line.dropPrefix? (i.chars n)

/-- The lines of a block string over several lines whose fences are at the given level,
from what stands between the tag and the closing fence. -/
def lines? (i : Indentation) (n : Nat) (between : List Char) : Option (List (List Char)) := do
  let rest ← between.dropPrefix? ['\n']
  let body ← rest.dropSuffix? ('\n' :: i.chars n)
  (splitLines body).mapM (outdent? i (n + 1))

theorem outdent?_indented (i : Indentation) (n : Nat) (line : List Char) :
    outdent? i n (indented i n line) = some line := by
  cases line with
  | nil => rfl
  | cons c line =>
      have hne : (i.chars n ++ c :: line).isEmpty = false := by simp
      rw [indented, List.isEmpty_cons, if_neg Bool.false_ne_true, outdent?, hne,
        if_neg Bool.false_ne_true]
      exact List.dropPrefix?_append_of_beq _ (beq_self_eq_true _)

theorem newline_notMem_indented (i : Indentation) (n : Nat) {line : List Char}
    (h : '\n' ∉ line) : '\n' ∉ indented i n line := by
  rw [indented]
  split
  · exact List.not_mem_nil
  · rw [List.mem_append, not_or]
    exact ⟨i.newline_notMem_chars n, h⟩

/-- What stands between the two line breaks next to the fences is cut into lines. -/
theorem lines?_framed (i : Indentation) (n : Nat) (body : List Char) :
    lines? i n ('\n' :: (body ++ '\n' :: i.chars n)) =
      (splitLines body).mapM (outdent? i (n + 1)) := by
  have hfirst : ('\n' :: (body ++ '\n' :: i.chars n)).dropPrefix? ['\n'] =
      some (body ++ '\n' :: i.chars n) :=
    List.dropPrefix?_eq_some_iff.mpr ⟨['\n'], rfl, beq_self_eq_true _⟩
  have hlast : (body ++ '\n' :: i.chars n).dropSuffix? ('\n' :: i.chars n) = some body :=
    List.dropSuffix?_eq_some_iff.mpr ⟨_, rfl, beq_self_eq_true _⟩
  rw [lines?, hfirst, Option.bind_eq_bind, Option.bind_some, hlast, Option.bind_some]

/-- **The lines of a text are read back** from what is printed for them: a line break and
the line for each, and the line break in front of the closing fence. -/
theorem lines?_spread (i : Indentation) (n : Nat) (content : List Char) :
    lines? i n (((splitLines content).flatMap fun line => '\n' :: indented i (n + 1) line) ++
      '\n' :: i.chars n) = some (splitLines content) := by
  have hne : splitLines content ≠ [] := splitLines_ne_nil content
  have hlines : ∀ line ∈ (splitLines content).map (indented i (n + 1)), '\n' ∉ line := by
    rw [List.forall_mem_map]
    intro line hline
    exact newline_notMem_indented i (n + 1) (newline_notMem_of_mem_splitLines hline)
  rw [flatMap_newline_eq _ hne, List.cons_append, lines?_framed,
    splitLines_joinLines (by simpa using hne) hlines]
  exact mapM_map_eq_some (outdent?_indented i (n + 1)) _

end Block

/-! ## What stands between the fences -/

namespace Doc

variable (i : Indentation) (n : Nat)

theorem chars_onNewLine (line : List Char) :
    (onNewLine (String.ofList line)).flatMap (chars i n) = '\n' :: Block.indented i n line := by
  cases line with
  | nil => simp [Block.indented, chars]
  | cons c line =>
      rw [onNewLine_of_ne (by simp)]
      simp [Block.indented, chars]

/-- The lines of a text below each other, each behind a line break. -/
theorem chars_concat_onNewLines (s : String) :
    chars i n (concat (onNewLines s)) =
      (Text.splitLines s.toList).flatMap fun line => '\n' :: Block.indented i n line := by
  rw [chars_concat, onNewLines, Text.lines, List.flatMap_map, List.flatMap_assoc]
  exact List.flatMap_congr fun line _ => chars_onNewLine i n line

/-- Printing a document that is nested some times prints it at that level. -/
theorem toList_print_iterate_nest (d : Doc) :
    (print i (nest^[n] d)).toList = chars i n d := by
  rw [print_iterate i n (render_nest i), chars]

end Doc

namespace BlockString

open Text

/-- The characters between the fences of a block that is printed at a level. -/
def interior (b : BlockString) (i : Indentation) (n : Nat) : List Char :=
  if b.isSpread then
    ((splitLines b.content.toList).flatMap fun line => '\n' :: Block.indented i (n + 1) line) ++
      '\n' :: i.chars n
  else if b.content.isEmpty then [' '] else ' ' :: (b.content.toList ++ [' '])

variable (b : BlockString) (i : Indentation) (n : Nat)

/-- A block is its opening fence, its interior and its closing fence. -/
theorem chars_toDoc :
    Doc.chars i n b.toDoc = b.openFence.toList ++ b.interior i n ++ b.closeFence.toList := by
  have hspace : " ".toList = [' '] := by decide +kernel
  have hnested : Doc.chars i n (Doc.concat (Doc.onNewLines b.content)).nest =
      (splitLines b.content.toList).flatMap fun line => '\n' :: Block.indented i (n + 1) line := by
    rw [← Doc.chars_concat_onNewLines, Doc.chars, Doc.render_nest, Doc.chars]
  rw [toDoc, interior]
  split
  · rw [Doc.chars_append, Doc.chars_append, Doc.chars_append, hnested, Doc.chars_hardLine,
      Doc.chars_ofString, Doc.chars_ofString]
    simp
  · split
    · simp [hspace]
    · simp [hspace]

/-! ## The closing fence does not come too early -/

section Search

variable {p before after : List Char} (hp : ∀ c ∈ p, isBlank c = false)

include hp in
/-- A text without blanks that stands in no line of a block does not stand in the printed
lines either, nor across what is in front of them. -/
theorem not_infix_append_lines {lines : List (List Char)} (hbefore : ¬p <:+: before)
    (hlines : ∀ line ∈ lines, ¬p <:+: line) :
    ¬p <:+: before ++ lines.flatMap fun line => '\n' :: Block.indented i n line := by
  -- what is in front grows by a line at each step
  induction lines generalizing before with
  | nil =>
      rw [List.flatMap_nil, List.append_nil]
      exact hbefore
  | cons line lines ih =>
      rw [List.forall_mem_cons] at hlines
      have hline : ¬p <:+: Block.indented i n line := by
        rw [Block.indented]
        split
        · rename_i hempty
          rw [← List.isEmpty_iff.mp hempty]
          exact hlines.1
        · exact not_infix_blanks_append hp (i.forall_mem_chars n (by decide) (by decide)) hlines.1
      rw [List.flatMap_cons, ← List.append_assoc]
      exact ih (not_infix_append_blank hp (by decide) hbefore hline) hlines.2

include hp in
/-- A text without blanks that stands neither in the text of a block nor in what is in
front of the interior or behind it does not stand in all of them together. -/
theorem not_infix_interior (hbefore : ¬p <:+: before) (hcontent : ¬p <:+: b.content.toList)
    (hafter : ¬p <:+: after) : ¬p <:+: before ++ b.interior i n ++ after := by
  rw [interior]
  split
  · have hlines : ∀ line ∈ splitLines b.content.toList, ¬p <:+: line := by
      intro line hline hp'
      have hinfix := hp'.trans (infix_joinLines_of_mem hline)
      rw [joinLines_splitLines] at hinfix
      exact hcontent hinfix
    rw [← List.append_assoc, List.append_assoc _ _ after, List.cons_append]
    exact not_infix_append_blank hp (by decide)
      (not_infix_append_lines i (n + 1) hp hbefore hlines)
      (not_infix_blanks_append hp (i.forall_mem_chars n (by decide) (by decide)) hafter)
  · split
    · rw [List.append_assoc, List.singleton_append]
      exact not_infix_append_blank hp (by decide) hbefore hafter
    · have hpadded : before ++ ' ' :: (b.content.toList ++ [' ']) ++ after =
          (before ++ ' ' :: b.content.toList) ++ ' ' :: after := by simp
      rw [hpadded]
      exact not_infix_append_blank hp (by decide)
        (not_infix_append_blank hp (by decide) hbefore hcontent) hafter

end Search

/-- The search for the closing fence, from a place in front of which the fence is not,
finds the one that is printed. -/
theorem dropInfix?_closeFence (hquote : ∀ c ∈ b.quote.toList, isBlank c = false)
    {before : List Char} (hbefore : '|' ∉ before) (rest : List Char) :
    (before ++ b.interior i n ++ b.closeFence.toList ++ rest).dropInfix? b.closeFence.toList =
      some (before ++ b.interior i n, rest) := by
  have hclosing : b.closeFence.toList = b.safeQuote.toList ++ [Block.delimiter] := by
    rw [closeFence, String.toList_append]
    rfl
  have hblank : ∀ c ∈ b.safeQuote.toList ++ [Block.delimiter], isBlank c = false := by
    rw [List.forall_mem_append, List.forall_mem_singleton, safeQuote, Block.toList_fence]
    exact ⟨Block.forall_mem_fenceChars (by decide) hquote, by decide⟩
  have hcontent : ¬b.safeQuote.toList ++ [Block.delimiter] <:+: b.content.toList := by
    rw [safeQuote, Block.toList_fence]
    exact Block.closing_not_infix _ _
  have hfront : ¬b.safeQuote.toList ++ [Block.delimiter] <:+: before := by
    intro h
    exact hbefore (h.subset (List.mem_append_right _ List.mem_cons_self))
  have hbehind : ¬b.safeQuote.toList ++ [Block.delimiter] <:+: b.safeQuote.toList := by
    intro h
    have hle := h.length_le
    rw [List.length_append, List.length_singleton] at hle
    omega
  rw [hclosing]
  exact dropInfix?_append_mark (b.not_infix_interior i n hblank hfront hcontent hbehind) rest

/-! ## Reading back -/

/-- A text is that of a block whose fences are at a level, and what stands between the
fences tells the text of the block. -/
structure Readable (b : BlockString) (i : Indentation) (n : Nat) (text between : List Char) :
    Prop where
  /-- The opening fence, the tag, what stands between, and the closing fence. -/
  text_eq : text = '|' :: b.safeQuote.toList ++ b.tag.toList ++ between ++ b.closeFence.toList
  /-- Whatever follows, the first closing fence behind the tag is the one that is printed. -/
  closing (rest : List Char) :
    (between ++ b.closeFence.toList ++ rest).dropInfix? b.closeFence.toList = some (between, rest)
  /-- It is also the first one behind the quote, for a reader that does not know the tag. -/
  closing_tag (rest : List Char) :
    (b.tag.toList ++ between ++ b.closeFence.toList ++ rest).dropInfix? b.closeFence.toList =
      some (b.tag.toList ++ between, rest)
  /-- On one line the text stands between spaces, and the empty text leaves one space. -/
  inline : b.isSpread = false →
    between = if b.content.isEmpty then [' '] else ' ' :: (b.content.toList ++ [' '])
  /-- Over several lines the lines of the text are read back. -/
  spread : b.isSpread = true → Block.lines? i n between = some (splitLines b.content.toList)

/-- **A block string can be read back** wherever it is printed, if its quote has no blanks
and its tag no pipe. -/
theorem exists_readable_print (hquote : ∀ c ∈ b.quote.toList, isBlank c = false)
    (htag : '|' ∉ b.tag.toList) :
    ∃ between, b.Readable i n (Doc.print i (Doc.nest^[n] b.toDoc)).toList between := by
  refine ⟨b.interior i n, ?_, fun rest => ?_, fun rest => ?_, fun hinline => ?_, fun hspread => ?_⟩
  · rw [Doc.toList_print_iterate_nest, chars_toDoc, openFence]
    simp
  · exact b.dropInfix?_closeFence i n hquote List.not_mem_nil rest
  · exact b.dropInfix?_closeFence i n hquote htag rest
  · rw [interior, hinline, if_neg Bool.false_ne_true]
  · rw [interior, if_pos hspread]
    exact Block.lines?_spread i n b.content.toList

/-- A block over several lines.  Its text has both fences of its quote in it, a blank line
and a line that starts with blanks, and it ends with the quote. -/
def piped : BlockString := ⟨"a `| b |` c\n\n  | d `", "md", "`", ⟨⟨0, 0, 0⟩, ⟨4, 1, 30⟩⟩⟩

theorem exists_readable_print_piped :
    '\x60' ∈ piped.quote.toList ∧ (∀ c ∈ piped.quote.toList, isBlank c = false) ∧
      '|' ∉ piped.tag.toList ∧ piped.isSpread = true ∧
      ∃ between, piped.Readable {} 2 (Doc.print {} (Doc.nest^[2] piped.toDoc)).toList between := by
  have hquote : ∀ c ∈ piped.quote.toList, isBlank c = false := by
    have hall : piped.quote.toList.all (fun c => !isBlank c) = true := by decide +kernel
    simpa using hall
  have htag : '|' ∉ piped.tag.toList := by decide +kernel
  exact ⟨by decide +kernel, hquote, htag, by decide +kernel,
    piped.exists_readable_print {} 2 hquote htag⟩

end BlockString

end DiagramText
