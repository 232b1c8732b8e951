import DiagramText.Proofs.LineBreaks
import DiagramText.Proofs.Reading.Block

/-!
# Nesting as a change of the text

Nesting a document changes a number that the printer carries along.  What this does to the text
can be said without the printer: every line but the first moves by one level of indentation, and
a line without characters stays as it is.  This is known as a hanging indentation, and
`Text.hanging` puts it into any text.

A text does not tell its line breaks apart.  Behind a hard line the printer puts the indentation,
behind a bare line it puts none, and in the text both are line feeds.  So a change of the text can
only agree with nesting if it finds out which of the two stood there, and it does so by looking at
the line:

* a text with characters follows every hard line, so **the line that a hard line opens is not
  empty**, whatever its level is and even if a level is no character at all;
* a line break follows every bare line, so **the line that a bare line opens is empty**;
* a text holds no line feed, so **there are no other lines**.

None of the three can be left out.  A hard line with nothing behind it, for one, prints an empty
line at the outermost level and a line of blanks below it.
-/

namespace DiagramText

/-! ## Hanging indentation -/

namespace Text

/-- A text in which every line but the first has one level of indentation more.  Empty lines stay
empty. -/
def hanging (i : Indentation) (text : List Char) : List Char :=
  match splitLines text with
  | [] => []
  | first :: more => joinLines (first :: more.map (Block.indented i 1))

variable (i : Indentation)

theorem hanging_cons_of_ne {c : Char} (hc : c ≠ '\n') (rest : List Char) :
    hanging i (c :: rest) = c :: hanging i rest := by
  obtain ⟨line, more, hsplit, hcons⟩ := splitLines_cons_of_ne hc rest
  rw [hanging, hcons, hanging, hsplit]
  exact joinLines_cons_cons c line _

/-- The first line stays where it is. -/
theorem hanging_append {front : List Char} (h : '\n' ∉ front) (rest : List Char) :
    hanging i (front ++ rest) = front ++ hanging i rest := by
  induction front with
  | nil => rfl
  | cons c front ih =>
      rw [List.mem_cons, not_or] at h
      rw [List.cons_append, hanging_cons_of_ne i (Ne.symm h.1), ih h.2, List.cons_append]

/-- A line with characters moves by one level. -/
theorem hanging_newline_append {front : List Char} (hne : front ≠ []) (h : '\n' ∉ front)
    (rest : List Char) :
    hanging i ('\n' :: (front ++ rest)) = '\n' :: (i.chars 1 ++ hanging i (front ++ rest)) := by
  obtain ⟨c, front, rfl⟩ := List.exists_cons_of_ne_nil hne
  rw [List.mem_cons, not_or] at h
  obtain ⟨line, more, -, hcons⟩ := splitLines_cons_of_ne (Ne.symm h.1) (front ++ rest)
  rw [List.cons_append, hanging, splitLines_newline, hcons, hanging, hcons]
  show joinLines ([] :: (i.chars 1 ++ c :: line) :: more.map (Block.indented i 1)) =
    '\n' :: (i.chars 1 ++ joinLines ((c :: line) :: more.map (Block.indented i 1)))
  rw [joinLines, List.nil_append, joinLines_cons, joinLines_cons, List.append_assoc]

/-- A line without characters stays empty. -/
theorem hanging_newline_newline (rest : List Char) :
    hanging i ('\n' :: '\n' :: rest) = '\n' :: hanging i ('\n' :: rest) :=
  rfl

end Text

/-! ## One level deeper -/

/-- A leaf as it is one level deeper. -/
def Leaf.deepened : Leaf → Leaf
  | text s => text s
  | hardLine level => hardLine (level + 1)
  | bareLine => bareLine

/-- The level at which a document stands goes into its hard lines and into nothing else. -/
theorem Doc.leaves_succ (n : Nat) (d : Doc) :
    d.leaves (n + 1) = (d.leaves n).map Leaf.deepened := by
  induction d generalizing n with
  | nil => simp
  | text s => simp [leaves, Leaf.deepened]
  | hardLine => simp [Leaf.deepened]
  | bareLine => simp [Leaf.deepened]
  | indent d ih => rw [leaves, leaves, ih]
  | cat a b iha ihb => rw [leaves, leaves, iha, ihb, List.map_append]

theorem Leaf.exists_toList_print_eq_cons (i : Indentation) {leaf : Leaf}
    (h : leaf.isBreak = true) : ∃ rest, (leaf.print i).toList = '\n' :: rest := by
  cases leaf with
  | text s => exact absurd h Bool.false_ne_true
  | hardLine level => exact ⟨_, toList_print_hardLine i level⟩
  | bareLine => exact ⟨[], toList_print_bareLine i⟩

/-- Leaves that are all one level deeper print the same text with a hanging indentation. -/
theorem Leaf.flatMap_print_deepened (i : Indentation) {leaves : List Leaf}
    (htexts : ∀ s, .text s ∈ leaves → '\n' ∉ s.toList)
    (hhard : Followed isHard isWritten leaves) (hbare : Followed isBare isBreak leaves) :
    ((leaves.map deepened).flatMap fun leaf => (leaf.print i).toList) =
      Text.hanging i (leaves.flatMap fun leaf => (leaf.print i).toList) := by
  induction leaves with
  | nil => rfl
  | cons leaf rest ih =>
      rw [followed_cons] at hhard hbare
      have hrest := ih (fun s hs => htexts s (List.mem_cons_of_mem _ hs)) hhard.2 hbare.2
      rw [List.map_cons, List.flatMap_cons, List.flatMap_cons, hrest]
      cases leaf with
      | text s => exact (Text.hanging_append i (htexts s List.mem_cons_self) _).symm
      | hardLine level =>
          obtain ⟨follower, hfollower, hwritten⟩ := hhard.1 rfl
          obtain ⟨s, rfl, hs⟩ := (isWritten_iff follower).mp hwritten
          obtain ⟨others, rfl⟩ := List.head?_eq_some_iff.mp hfollower
          -- the line that is opened goes at least to the end of the text
          have hfront : '\n' ∉ i.chars level ++ s.toList := by
            rw [List.mem_append, not_or]
            exact ⟨i.newline_notMem_chars level, htexts s (by simp)⟩
          have hmoved := Text.hanging_newline_append i (by simp [hs]) hfront
            (others.flatMap fun leaf => (leaf.print i).toList)
          rw [List.append_assoc, Text.hanging_append i (i.newline_notMem_chars level)] at hmoved
          rw [deepened, toList_print_hardLine, toList_print_hardLine, Nat.add_comm level,
            Indentation.chars_add, List.cons_append, List.append_assoc]
          exact hmoved.symm
      | bareLine =>
          obtain ⟨follower, hfollower, hbreak⟩ := hbare.1 rfl
          obtain ⟨others, rfl⟩ := List.head?_eq_some_iff.mp hfollower
          obtain ⟨text, htext⟩ := exists_toList_print_eq_cons i hbreak
          rw [deepened, toList_print_bareLine, List.flatMap_cons, htext]
          exact (Text.hanging_newline_newline i _).symm

/-- **Nesting is a hanging indentation.**  If every hard line of a document is directly followed by
a text with characters, every bare line by a line break, and no text holds a line feed, then the
nested document prints the text of the document with one level of indentation more in front of
every line that is neither the first nor empty, and with no other change. -/
theorem Doc.toList_print_nest_eq_hanging (i : Indentation) (d : Doc)
    (htexts : ∀ s, .text s ∈ d.leaves 0 → '\n' ∉ s.toList)
    (hhard : Leaf.Followed Leaf.isHard Leaf.isWritten (d.leaves 0))
    (hbare : Leaf.Followed Leaf.isBare Leaf.isBreak (d.leaves 0)) :
    (d.nest.print i).toList = Text.hanging i (d.print i).toList := by
  rw [toList_print_eq_flatMap_leaves, toList_print_eq_flatMap_leaves, leaves_nest, leaves_succ]
  exact Leaf.flatMap_print_deepened i htexts hhard hbare

/-- A document with a line break of each kind at two levels. -/
def Doc.gapped : Doc :=
  .concat [.ofString "a: [",
    .nest (.concat [.hardLine, .ofString "b", .bareLine, .hardLine, .ofString "c"]),
    .bareLine, .hardLine, .ofString "]"]

theorem Doc.toList_print_nest_eq_hanging_gapped :
    (∀ s, .text s ∈ gapped.leaves 0 → '\n' ∉ s.toList) ∧
      Leaf.Followed Leaf.isHard Leaf.isWritten (gapped.leaves 0) ∧
      Leaf.Followed Leaf.isBare Leaf.isBreak (gapped.leaves 0) ∧
      (gapped.print {}).toList = "a: [\n  b\n\n  c\n\n]".toList ∧
      (gapped.nest.print {}).toList = "a: [\n    b\n\n    c\n\n  ]".toList := by
  have hleaves : gapped.leaves 0 = [.text "a: [", .hardLine 1, .text "b", .bareLine, .hardLine 1,
      .text "c", .bareLine, .hardLine 0, .text "]"] := by
    decide +kernel
  have htexts : ∀ s, .text s ∈ gapped.leaves 0 → '\n' ∉ s.toList := by
    rw [hleaves]
    simp
  have hhard : Leaf.Followed Leaf.isHard Leaf.isWritten (gapped.leaves 0) := by
    rw [hleaves]
    simp [Leaf.followed_cons, Leaf.startsWith_cons, Leaf.followed_nil, Leaf.isHard, Leaf.isWritten]
  have hbare : Leaf.Followed Leaf.isBare Leaf.isBreak (gapped.leaves 0) := by
    rw [hleaves]
    simp [Leaf.followed_cons, Leaf.startsWith_cons, Leaf.followed_nil, Leaf.isBare, Leaf.isBreak]
  have hprint : (gapped.print {}).toList = "a: [\n  b\n\n  c\n\n]".toList := by
    rw [print_eq_render]
    decide +kernel
  refine ⟨htexts, hhard, hbare, hprint, ?_⟩
  rw [toList_print_nest_eq_hanging {} gapped htexts hhard hbare, hprint]
  decide +kernel

end DiagramText
