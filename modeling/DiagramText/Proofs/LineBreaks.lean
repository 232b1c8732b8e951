import DiagramText.Proofs.CommentLines
import DiagramText.Proofs.TreeParts

/-!
# What follows a line break

There are two line breaks, and each has its purpose.  A bare line opens a line that stays
empty, so no text may follow it.  A hard line prints an indentation, so a text has to follow it:
otherwise the line would consist of spaces and nothing else.  This file says that the layout of
a tree keeps to both.

* **Every bare line is followed by a line break**, in the document of every tree.
* **Every hard line is followed by a text**, under two conditions: each entry of a map or an
  array prints something, and only the outermost map may be a file.  The hard line at the end of
  a file is the exception; nothing follows it.

Both conditions are needed.  An entry that prints nothing, such as a number without digits,
still has a line of its own, and a file inside another tree ends with a hard line wherever it
stands.

## Why it holds across the seams

The statements are about neighbours, and neighbours may come from different parts of a tree.
What makes them hold is that no part leaves its last break open: a row of leaves is `Followed`
only if a break of the given kind is not its last leaf.  Rows with that property can be put one
after the other (`Leaf.Followed.append`), whatever the second one starts with.

The line breaks between entries are not closed in themselves; they are closed by the entry
behind them.  So an entry has to start with a text, and this goes into the invariant for hard
lines (`Doc.IsFilled`): a document that is not the empty one starts with a text.  For an
arbitrary document that would be too much to ask, since `indent nil` has no leaves at all.  The
operations never build such a document.
-/

namespace DiagramText

/-! ## Rows of leaves -/

namespace Leaf

/-- Whether a leaf is a line break without indentation. -/
def isBare : Leaf → Bool
  | bareLine => true
  | _ => false

/-- Whether a leaf is a line break with indentation. -/
def isHard : Leaf → Bool
  | hardLine _ => true
  | _ => false

/-- Whether a leaf is a line break behind which spaces or tabs are printed. -/
def isIndented : Leaf → Bool
  | hardLine level => level != 0
  | _ => false

/-- Whether a leaf is a text with characters. -/
def isWritten : Leaf → Bool
  | text s => s != ""
  | _ => false

theorem isWritten_iff (leaf : Leaf) : leaf.isWritten = true ↔ ∃ s, leaf = text s ∧ s ≠ "" := by
  cases leaf <;> simp [isWritten]

variable {kind next : Leaf → Bool} {leaf : Leaf} {rest as bs : List Leaf}

/-- The first leaf of a row is of the given kind, and there is one. -/
def StartsWith (next : Leaf → Bool) (leaves : List Leaf) : Prop :=
  ∃ leaf, leaves.head? = some leaf ∧ next leaf = true

/-- Each leaf of the one kind is directly followed by a leaf of the other. -/
def Followed (kind next : Leaf → Bool) (leaves : List Leaf) : Prop :=
  ∀ k leaf, leaves[k]? = some leaf → kind leaf = true →
    ∃ follower, leaves[k + 1]? = some follower ∧ next follower = true

theorem startsWith_cons : StartsWith next (leaf :: rest) ↔ next leaf = true := by
  simp [StartsWith]

theorem StartsWith.append (h : StartsWith next as) (bs : List Leaf) :
    StartsWith next (as ++ bs) := by
  obtain ⟨leaf, hleaf, hnext⟩ := h
  exact ⟨leaf, by rw [List.head?_append, hleaf, Option.some_or], hnext⟩

theorem followed_nil : Followed kind next [] := by
  intro k leaf hleaf
  exact absurd hleaf (by simp)

theorem followed_cons :
    Followed kind next (leaf :: rest) ↔
      (kind leaf = true → StartsWith next rest) ∧ Followed kind next rest := by
  constructor
  · intro h
    refine ⟨fun hkind => ?_, fun k l hl hkind => h (k + 1) l hl hkind⟩
    obtain ⟨follower, hfollower, hnext⟩ := h 0 leaf rfl hkind
    exact ⟨follower, by rwa [List.head?_eq_getElem?], hnext⟩
  · rintro ⟨hfirst, hrest⟩ (_ | k) l hl hkind
    · obtain rfl : leaf = l := Option.some.inj hl
      obtain ⟨follower, hfollower, hnext⟩ := hfirst hkind
      exact ⟨follower, by rwa [List.head?_eq_getElem?] at hfollower, hnext⟩
    · exact hrest k l hl hkind

/-- Rows may be put one after the other. -/
theorem Followed.append (ha : Followed kind next as) (hb : Followed kind next bs) :
    Followed kind next (as ++ bs) := by
  induction as with
  | nil => exact hb
  | cons leaf rest ih =>
      rw [followed_cons] at ha
      rw [List.cons_append, followed_cons]
      exact ⟨fun hkind => (ha.1 hkind).append bs, ih ha.2⟩

theorem followed_flatMap {α : Type} {f : α → List Leaf} {xs : List α}
    (h : ∀ x ∈ xs, Followed kind next (f x)) : Followed kind next (xs.flatMap f) := by
  induction xs with
  | nil => exact followed_nil
  | cons x xs ih =>
      rw [List.forall_mem_cons] at h
      rw [List.flatMap_cons]
      exact h.1.append (ih h.2)

/-- The text behind a hard line. -/
theorem Followed.exists_text (h : Followed isHard isWritten as) {k level : Nat}
    (hk : as[k]? = some (.hardLine level)) : ∃ s, as[k + 1]? = some (.text s) ∧ s ≠ "" := by
  obtain ⟨follower, hfollower, hnext⟩ := h k _ hk rfl
  obtain ⟨s, rfl, hs⟩ := (isWritten_iff follower).mp hnext
  exact ⟨s, hfollower, hs⟩

/-- A hard line that prints an indentation is a hard line. -/
theorem Followed.of_isIndented (h : Followed isHard next as) : Followed isIndented next as := by
  intro k leaf hleaf hindented
  cases leaf with
  | hardLine level => exact h k _ hleaf rfl
  | _ => exact absurd hindented Bool.false_ne_true

end Leaf

/-! ## Documents -/

namespace Doc

variable {kind next : Leaf → Bool}

/-- A document whose leaves are followed as they should be, at every level. -/
def Followed (kind next : Leaf → Bool) (d : Doc) : Prop :=
  ∀ n, Leaf.Followed kind next (d.leaves n)

theorem additive_followed : Additive (Followed kind next) where
  nil n := by
    rw [leaves_nil]
    exact Leaf.followed_nil
  append ha hb n := by
    rw [leaves_append]
    exact (ha n).append (hb n)

theorem Followed.nest {d : Doc} (h : d.Followed kind next) : d.nest.Followed kind next := by
  intro n
  rw [leaves_nest]
  exact h (n + 1)

section Texts

variable (htext : ∀ s, kind (.text s) = false)

include htext

theorem followed_ofString (s : String) : (ofString s).Followed kind next := by
  intro n
  rw [leaves_ofString]
  split
  · exact Leaf.followed_nil
  · rw [Leaf.followed_cons, htext]
    exact ⟨fun h => absurd h Bool.false_ne_true, Leaf.followed_nil⟩

/-- A break and a text behind it. -/
theorem followed_hardLine_ofString {s : String} (hs : s ≠ "") (hnext : next (.text s) = true) :
    (hardLine ++ ofString s).Followed kind next := by
  intro n
  rw [leaves_append, leaves_hardLine, List.singleton_append, Leaf.followed_cons]
  refine ⟨fun _ => ?_, followed_ofString htext s n⟩
  rw [leaves_ofString, if_neg hs, Leaf.startsWith_cons]
  exact hnext

end Texts

theorem leaves_concat_flatMap {α : Type} (n : Nat) (f : α → List Doc) (xs : List α) :
    leaves n (concat (xs.flatMap f)) = xs.flatMap fun x => leaves n (concat (f x)) := by
  simp only [leaves_concat, List.flatMap_assoc]

end Doc

open Doc

/-- Brackets add one line break, and put the closing bracket behind it. -/
theorem Brackets.followed_enclose {kind next : Leaf → Bool} (htext : ∀ s, kind (.text s) = false)
    (b : Brackets) (hclosing : (hardLine ++ ofString b.closing).Followed kind next)
    (oneLine : Bool) {parts : List Doc} (hparts : (concat parts).Followed kind next) :
    (b.enclose oneLine parts).Followed kind next := by
  rw [enclose]
  split
  · exact followed_ofString htext _
  · split
    · exact additive_followed.surround (followed_ofString htext _) hparts
        (followed_ofString htext _)
    · exact additive_followed.surround (followed_ofString htext _) hparts.nest hclosing

namespace Placed

variable {kind next : Leaf → Bool}

theorem leaves_concat_docs (n : Nat) (p : Placed) :
    leaves n (concat p.docs) =
      leaves n (concat p.separator.docs) ++ leaves n (concat p.item.docs) := by
  rw [docs, leaves_concat, leaves_concat, leaves_concat, List.flatMap_append]

/-- What stands in a row is closed if each item is, together with what stands in front of
it. -/
theorem followed_concat_docs {placed : List Placed}
    (h : ∀ p ∈ placed, (concat p.docs).Followed kind next) :
    (concat (placed.flatMap docs)).Followed kind next := by
  intro n
  rw [leaves_concat_flatMap]
  exact Leaf.followed_flatMap fun p hp => h p hp n

end Placed

/-- The documents of an item are those of its entries, and a space. -/
theorem Item.followed_concat_docs {kind next : Leaf → Bool}
    (htext : ∀ s, kind (.text s) = false) {item : Item}
    (h : ∀ e ∈ item.entries, e.doc.Followed kind next) :
    (concat item.docs).Followed kind next := by
  rw [entries, List.forall_mem_cons] at h
  refine additive_followed.concat ?_
  rw [docs]
  cases hcomment : item.trailing with
  | none =>
      rw [List.forall_mem_singleton]
      exact h.1
  | some comment =>
      rw [List.forall_mem_cons, List.forall_mem_cons, List.forall_mem_singleton]
      exact ⟨h.1, followed_ofString htext _, h.2 comment (by simp [hcomment])⟩

/-! ## Bare lines -/

namespace Doc

/-- A document in which every bare line is followed by a line break. -/
def ClosesBlanks (d : Doc) : Prop := d.Followed Leaf.isBare Leaf.isBreak

theorem additive_closesBlanks : Additive ClosesBlanks := additive_followed

theorem closesBlanks_ofString (s : String) : (ofString s).ClosesBlanks :=
  followed_ofString (fun _ => rfl) s

theorem closesBlanks_hardLine : hardLine.ClosesBlanks := by
  intro n
  rw [leaves_hardLine, Leaf.followed_cons]
  exact ⟨fun h => absurd h Bool.false_ne_true, Leaf.followed_nil⟩

theorem closesBlanks_hardLine_ofString (s : String) :
    (hardLine ++ ofString s).ClosesBlanks :=
  additive_closesBlanks.append closesBlanks_hardLine (closesBlanks_ofString s)

/-- The lines of a text are closed by a line break behind them, and not by themselves: the last
of them may be empty. -/
theorem followed_leaves_onNewLines (lines : List String) (n : Nat) {rest : List Leaf}
    (hrest : Leaf.Followed Leaf.isBare Leaf.isBreak rest)
    (hstart : Leaf.StartsWith Leaf.isBreak rest) :
    Leaf.Followed Leaf.isBare Leaf.isBreak
        (leaves n (concat (lines.flatMap onNewLine)) ++ rest) ∧
      Leaf.StartsWith Leaf.isBreak (leaves n (concat (lines.flatMap onNewLine)) ++ rest) := by
  rw [leaves_concat_flatMap]
  induction lines with
  | nil => exact ⟨hrest, hstart⟩
  | cons line lines ih =>
      rw [List.flatMap_cons, List.append_assoc]
      by_cases hline : line = ""
      · rw [hline, onNewLine_empty, concat_singleton, leaves_bareLine, List.singleton_append,
          Leaf.followed_cons, Leaf.startsWith_cons]
        exact ⟨⟨fun _ => ih.2, ih.1⟩, rfl⟩
      · have hleaves : leaves n (concat (onNewLine line)) = [.hardLine n, .text line] := by
          rw [onNewLine_of_ne hline, leaves_concat]
          simp [leaves_ofString, hline]
        rw [hleaves, List.cons_append, List.singleton_append, Leaf.followed_cons,
          Leaf.followed_cons]
        exact ⟨⟨fun h => absurd h Bool.false_ne_true, fun h => absurd h Bool.false_ne_true,
          ih.1⟩, Leaf.startsWith_cons.mpr rfl⟩

/-- The lines of a text and a closing mark on the line behind them. -/
theorem followed_onNewLines_append (s closing : String) (n m : Nat) :
    Leaf.Followed Leaf.isBare Leaf.isBreak
      (leaves m (concat (onNewLines s)) ++ leaves n (hardLine ++ ofString closing)) := by
  refine (followed_leaves_onNewLines (Text.lines s) m (closesBlanks_hardLine_ofString closing n)
    ?_).1
  rw [leaves_append, leaves_hardLine, List.singleton_append, Leaf.startsWith_cons]
  rfl

end Doc

theorem Separator.closesBlanks_docs (separator : Separator) :
    (concat separator.docs).ClosesBlanks := by
  intro n
  cases separator <;>
    simp [docs, leaves_concat, leaves_ofString, Leaf.followed_cons, Leaf.followed_nil,
      Leaf.startsWith_cons, Leaf.isBare, Leaf.isBreak]

theorem Placed.closesBlanks_concat_docs {placed : List Placed}
    (h : ∀ p ∈ placed, ∀ e ∈ p.item.entries, e.doc.ClosesBlanks) :
    (concat (placed.flatMap docs)).ClosesBlanks := by
  refine followed_concat_docs fun p hp n => ?_
  rw [leaves_concat_docs]
  exact (p.separator.closesBlanks_docs n).append
    (Item.followed_concat_docs (fun _ => rfl) (h p hp) n)

theorem ArrayLit.closesBlanks_docOf {span : Span} {es : List Entry}
    (h : ∀ e ∈ es, e.doc.ClosesBlanks) : (docOf span es).ClosesBlanks :=
  Brackets.followed_enclose (fun _ => rfl) _ (closesBlanks_hardLine_ofString _) _
    (Placed.closesBlanks_concat_docs fun _ hp e he => h e (mem_of_mem_arrange hp he))

theorem MapLit.closesBlanks_docOf {span : Span} {isFile : Bool} {es : List Entry}
    (h : ∀ e ∈ es, e.doc.ClosesBlanks) : (docOf span isFile es).ClosesBlanks := by
  have hparts : (concat ((arrange isFile (isInline span isFile) es).flatMap
      Placed.docs)).ClosesBlanks :=
    Placed.closesBlanks_concat_docs fun _ hp e he => h e (mem_of_mem_arrange hp he)
  rw [docOf]
  cases isFile with
  | true =>
      rw [if_pos rfl, fileDoc]
      split
      · exact additive_closesBlanks.nil
      · exact additive_closesBlanks.append hparts closesBlanks_hardLine
  | false =>
      exact Brackets.followed_enclose (fun _ => rfl) _ (closesBlanks_hardLine_ofString _) _ hparts

theorem BlockString.closesBlanks_toDoc (b : BlockString) : b.toDoc.ClosesBlanks := by
  refine forall_toDoc_of_texts additive_closesBlanks closesBlanks_ofString b fun _ n => ?_
  have hlines := followed_onNewLines_append b.content b.closeFence n (n + 1)
  rw [leaves_append, leaves_append, leaves_append, leaves_nest, List.append_assoc,
    List.append_assoc, ← leaves_append]
  exact (closesBlanks_ofString b.openFence n).append hlines

theorem Comment.closesBlanks_toDoc (c : Comment) : c.toDoc.ClosesBlanks := by
  rw [toDoc]
  cases c.style with
  | line =>
      refine additive_closesBlanks.join closesBlanks_hardLine ?_
      rw [List.forall_mem_map]
      exact fun line _ => closesBlanks_ofString _
  | block =>
      show ClosesBlanks (if c.isInline then _ else _)
      split
      · exact closesBlanks_ofString _
      · intro n
        have hlines := followed_onNewLines_append c.text fence n n
        have hleaves : leaves n (concat ([.ofString fence] ++ onNewLines c.text ++
            [.hardLine, .ofString fence])) =
            leaves n (.ofString fence) ++ (leaves n (concat (onNewLines c.text)) ++
              leaves n (hardLine ++ ofString fence)) := by
          simp [leaves_concat]
        rw [hleaves]
        exact (closesBlanks_ofString fence n).append hlines

/-- Whatever a tree is made of, its document closes its blank lines. -/
theorem Part.ensures_closesBlanks : Part.Ensures (fun _ => True) Doc.ClosesBlanks :=
  .of_texts additive_closesBlanks closesBlanks_ofString
    (fun content _ => content.closesBlanks_toDoc) (fun content _ => content.closesBlanks_toDoc)
    (fun _ => ArrayLit.closesBlanks_docOf) (fun _ => MapLit.closesBlanks_docOf)

theorem Node.closesBlanks_toDoc (node : Node) : node.toDoc.ClosesBlanks :=
  Part.ensures_closesBlanks.node node fun _ _ => trivial

/-! ## Hard lines -/

namespace Doc

/-- A document that starts with a text, unless it is the empty one, and in which a text follows
every hard line. -/
structure IsFilled (d : Doc) : Prop where
  opens : d ≠ nil → ∀ n, Leaf.StartsWith Leaf.isWritten (d.leaves n)
  followed : d.Followed Leaf.isHard Leaf.isWritten

theorem startsWith_leaves_ofString {s : String} (hs : s ≠ "") (n : Nat) :
    Leaf.StartsWith Leaf.isWritten (leaves n (ofString s)) := by
  rw [leaves_ofString, if_neg hs, Leaf.startsWith_cons, Leaf.isWritten_iff]
  exact ⟨s, rfl, hs⟩

theorem isFilled_ofString (s : String) : (ofString s).IsFilled where
  opens hne := startsWith_leaves_ofString fun hs => hne ((ofString_eq_nil_iff s).mpr hs)
  followed := followed_ofString (fun _ => rfl) s

/-- A document that starts with a text may go on with one that starts with a break. -/
theorem IsFilled.append_followed {a b : Doc} (ha : a.IsFilled) (hne : a ≠ nil)
    (hb : b.Followed Leaf.isHard Leaf.isWritten) : (a ++ b).IsFilled where
  opens _ n := by
    rw [leaves_append]
    exact (ha.opens hne n).append _
  followed := additive_followed.append ha.followed hb

theorem additive_isFilled : Additive IsFilled where
  nil := isFilled_ofString ""
  append {a b} ha hb := by
    by_cases hne : a = nil
    · rwa [hne, nil_append]
    · exact ha.append_followed hne hb.followed

theorem followed_bareLine : bareLine.Followed Leaf.isHard Leaf.isWritten := by
  intro n
  rw [leaves_bareLine, Leaf.followed_cons]
  exact ⟨fun h => absurd h Bool.false_ne_true, Leaf.followed_nil⟩

theorem followed_hardLine_written {s : String} (hs : s ≠ "") :
    (hardLine ++ ofString s).Followed Leaf.isHard Leaf.isWritten :=
  followed_hardLine_ofString (fun _ => rfl) hs ((Leaf.isWritten_iff _).mpr ⟨s, rfl, hs⟩)

/-- A document that starts with a text may go on with a text on the next line. -/
theorem IsFilled.append_hardLine {a : Doc} (ha : a.IsFilled) (hne : a ≠ nil) {s : String}
    (hs : s ≠ "") : (a ++ hardLine ++ ofString s).IsFilled where
  opens _ n := by
    rw [leaves_append, leaves_append]
    exact ((ha.opens hne n).append _).append _
  followed n := by
    rw [leaves_append, leaves_append, List.append_assoc, ← leaves_append n hardLine]
    exact (ha.followed n).append (followed_hardLine_written hs n)

/-- Texts on lines of their own. -/
theorem isFilled_join_hardLine {lines : List String} (h : ∀ line ∈ lines, line ≠ "") :
    (join hardLine (lines.map ofString)).IsFilled := by
  cases lines with
  | nil => exact additive_isFilled.nil
  | cons first others =>
      rw [List.forall_mem_cons] at h
      have hne : ofString first ≠ nil := (ofString_eq_nil_iff first).not.mpr h.1
      rw [List.map_cons, join, List.foldl_map]
      refine And.left (List.foldlRecOn others _
        (motive := fun done : Doc => done.IsFilled ∧ done ≠ nil) ⟨isFilled_ofString first, hne⟩ ?_)
      rintro done ⟨hdone, hprinted⟩ line hline
      exact ⟨hdone.append_hardLine hprinted (h.2 line hline), by simp [hprinted]⟩

/-- The lines of a text: the empty ones have no hard line. -/
theorem followed_onNewLines (s : String) :
    (concat (onNewLines s)).Followed Leaf.isHard Leaf.isWritten := by
  intro n
  rw [onNewLines, leaves_concat_flatMap]
  refine Leaf.followed_flatMap fun line _ => ?_
  by_cases hline : line = ""
  · rw [hline, onNewLine_empty, concat_singleton]
    exact followed_bareLine n
  · rw [onNewLine_of_ne hline]
    exact followed_hardLine_written hline n

end Doc

/-- Brackets start with a text, and so does the line of the closing bracket. -/
theorem Brackets.isFilled_enclose (b : Brackets) (hopening : b.opening ≠ "")
    (hclosing : b.closing ≠ "") (oneLine : Bool) {parts : List Doc}
    (hparts : (concat parts).Followed Leaf.isHard Leaf.isWritten) :
    (b.enclose oneLine parts).IsFilled where
  opens _ n := by
    have hfront : ∀ s, b.opening ++ s ≠ "" := by
      intro s hs
      exact hopening (String.append_eq_empty_iff.mp hs).1
    rw [enclose]
    split
    · exact startsWith_leaves_ofString (hfront _) n
    · split
      · rw [surround, leaves_append, leaves_append]
        exact ((startsWith_leaves_ofString (hfront _) n).append _).append _
      · rw [surround, leaves_append, leaves_append]
        exact ((startsWith_leaves_ofString hopening n).append _).append _
  followed := followed_enclose (fun _ => rfl) b (followed_hardLine_written hclosing) oneLine hparts

/-- An entry that is printed, and starts with a text. -/
structure Entry.IsPrinted (e : Entry) : Prop where
  ne_nil : e.doc ≠ .nil
  filled : e.doc.IsFilled

namespace Placed

theorem startsWith_leaves_item {item : Item} (h : item.entry.IsPrinted) (n : Nat) :
    Leaf.StartsWith Leaf.isWritten (leaves n (concat item.docs)) := by
  obtain ⟨more, hmore⟩ : ∃ more, item.docs = item.entry.doc :: more := by
    rw [Item.docs]
    split <;> exact ⟨_, rfl⟩
  rw [hmore, leaves_concat, List.flatMap_cons]
  exact (h.filled.opens h.ne_nil n).append _

/-- The separator of an item is closed by the item. -/
theorem followed_concat_docs_of_isPrinted {p : Placed} (h : ∀ e ∈ p.item.entries, e.IsPrinted) :
    (concat p.docs).Followed Leaf.isHard Leaf.isWritten := by
  intro n
  have hitem : Leaf.Followed Leaf.isHard Leaf.isWritten (leaves n (concat p.item.docs)) :=
    Item.followed_concat_docs (fun _ => rfl) (fun e he => (h e he).filled.followed) n
  have hstart := startsWith_leaves_item (h p.item.entry List.mem_cons_self) n
  rw [leaves_concat_docs]
  cases p.separator with
  | nothing => exact hitem
  | semicolon => exact (followed_ofString (fun _ => rfl) "; " n).append hitem
  | newline => exact Leaf.followed_cons.mpr ⟨fun _ => hstart, hitem⟩
  | blankLine =>
      exact (followed_bareLine n).append (Leaf.followed_cons.mpr ⟨fun _ => hstart, hitem⟩)

theorem followed_row {placed : List Placed}
    (h : ∀ p ∈ placed, ∀ e ∈ p.item.entries, e.IsPrinted) :
    (concat (placed.flatMap docs)).Followed Leaf.isHard Leaf.isWritten :=
  followed_concat_docs fun p hp => followed_concat_docs_of_isPrinted (h p hp)

end Placed

theorem ArrayLit.isFilled_docOf {span : Span} {es : List Entry} (h : ∀ e ∈ es, e.IsPrinted) :
    (docOf span es).IsFilled :=
  Brackets.isFilled_enclose _ (by decide) (by decide) _
    (Placed.followed_row fun _ hp e he => h e (mem_of_mem_arrange hp he))

theorem MapLit.followed_row (isFile oneLine : Bool) {es : List Entry}
    (h : ∀ e ∈ es, e.IsPrinted) :
    (concat ((arrange isFile oneLine es).flatMap Placed.docs)).Followed Leaf.isHard
      Leaf.isWritten :=
  Placed.followed_row fun _ hp e he => h e (mem_of_mem_arrange hp he)

theorem MapLit.isFilled_docOf {span : Span} {es : List Entry} (h : ∀ e ∈ es, e.IsPrinted) :
    (docOf span false es).IsFilled :=
  Brackets.isFilled_enclose _ (by decide) (by decide) _ (followed_row _ _ h)

/-- A file ends with a hard line, and every other one is followed by a text. -/
theorem MapLit.leaves_docOf_file {span : Span} {es : List Entry} (h : ∀ e ∈ es, e.IsPrinted)
    (n : Nat) :
    leaves n (docOf span true es) = [] ∨
      ∃ front, leaves n (docOf span true es) = front ++ [.hardLine n] ∧
        Leaf.Followed Leaf.isHard Leaf.isWritten front := by
  rw [docOf, if_pos rfl, fileDoc]
  split
  · exact .inl (leaves_nil n)
  · refine .inr ⟨_, ?_, followed_row true (isInline span true) h n⟩
    rw [leaves_append, leaves_hardLine]

theorem BlockString.isFilled_toDoc (b : BlockString) : b.toDoc.IsFilled := by
  have hopen : ofString b.openFence ≠ .nil :=
    (ofString_eq_nil_iff _).not.mpr (by simp [openFence])
  have hlines := (isFilled_ofString b.openFence).append_followed hopen
    (followed_onNewLines b.content).nest
  exact forall_toDoc_of_texts additive_isFilled isFilled_ofString b fun _ =>
    hlines.append_hardLine (by simp [hopen]) (by simp [closeFence])

theorem Comment.markedLine_ne_empty (line : String) : markedLine line ≠ "" := by
  rw [markedLine]
  split <;> simp

theorem Comment.isFilled_toDoc (c : Comment) : c.toDoc.IsFilled := by
  rw [toDoc]
  cases c.style with
  | line =>
      have hmarked : ∀ line ∈ (Text.lines c.text).map markedLine, line ≠ "" :=
        List.forall_mem_map.mpr fun line _ => markedLine_ne_empty line
      have hlines := isFilled_join_hardLine hmarked
      rwa [List.map_map] at hlines
  | block =>
      show IsFilled (if c.isInline then _ else _)
      split
      · exact isFilled_ofString _
      · have hfence : ofString fence ≠ .nil := by decide
        have hopening : (concat ([.ofString fence] ++ onNewLines c.text)).IsFilled := by
          constructor
          · intro _ n
            rw [leaves_concat, List.singleton_append, List.flatMap_cons]
            exact ((isFilled_ofString fence).opens hfence n).append _
          · intro n
            rw [leaves_concat, List.singleton_append, List.flatMap_cons, ← leaves_concat]
            exact ((isFilled_ofString fence).followed n).append (followed_onNewLines c.text n)
        have hprinted : concat ([.ofString fence] ++ onNewLines c.text) ≠ .nil := by
          rw [Ne, concat_eq_nil_iff]
          exact fun hall => hfence (hall _ List.mem_cons_self)
        rw [List.append_cons, concat_append_singleton, concat_append_singleton]
        exact hopening.append_hardLine hprinted (by decide)

/-! ## Strings, paths and edges -/

/-- Whether a part is an array or a map. -/
def Part.isRow : Part → Bool
  | .array _ => true
  | .map _ _ => true
  | _ => false

/-- Whatever is neither an array nor a map starts with a text. -/
theorem Part.ensures_isFilled : Part.Ensures (fun part => part.isRow = false) Doc.IsFilled :=
  .of_texts additive_isFilled isFilled_ofString
    (fun content _ => content.isFilled_toDoc) (fun content _ => content.isFilled_toDoc)
    (fun h => absurd h (by simp [isRow])) (fun h => absurd h (by simp [isRow]))

mutual

theorem StringLit.not_isRow_of_mem_parts : ∀ s : StringLit, ∀ part ∈ s.parts, part.isRow = false
  | .unquoted pieces span => by
      rw [StringLit.parts, List.forall_mem_cons]
      exact ⟨rfl, Piece.not_isRow_of_mem_parts pieces⟩
  | .doubleQuoted pieces span => by
      rw [StringLit.parts, List.forall_mem_cons]
      exact ⟨rfl, Piece.not_isRow_of_mem_parts pieces⟩
  | .singleQuoted content span => by
      rw [StringLit.parts, List.forall_mem_singleton]
      rfl
  | .block content => by
      rw [StringLit.parts, List.forall_mem_singleton]
      rfl

theorem Piece.not_isRow_of_mem_parts :
    ∀ pieces : List Piece, ∀ part ∈ Piece.parts pieces, part.isRow = false
  | [] => by simp [Piece.parts]
  | .text content :: rest => by
      rw [Piece.parts]
      exact Piece.not_isRow_of_mem_parts rest
  | .substitution reference :: rest => by
      rw [Piece.parts, List.forall_mem_append]
      exact ⟨reference.not_isRow_of_mem_parts, Piece.not_isRow_of_mem_parts rest⟩

theorem Substitution.not_isRow_of_mem_parts :
    ∀ s : Substitution, ∀ part ∈ s.parts, part.isRow = false
  | ⟨spread, path, span⟩ => by
      rw [Substitution.parts]
      exact path.not_isRow_of_mem_parts

theorem KeyPath.not_isRow_of_mem_parts :
    ∀ path : KeyPath, ∀ part ∈ path.parts, part.isRow = false
  | ⟨segments, span⟩ => by
      rw [KeyPath.parts]
      exact StringLit.not_isRow_of_mem_segmentParts segments

theorem StringLit.not_isRow_of_mem_segmentParts :
    ∀ segments : List StringLit, ∀ part ∈ StringLit.segmentParts segments, part.isRow = false
  | [] => by simp [StringLit.segmentParts]
  | segment :: rest => by
      rw [StringLit.segmentParts, List.forall_mem_append]
      exact ⟨segment.not_isRow_of_mem_parts, StringLit.not_isRow_of_mem_segmentParts rest⟩

end

theorem KeyPath.not_isRow_of_mem_flatMap {paths : List KeyPath} :
    ∀ part ∈ paths.flatMap KeyPath.parts, part.isRow = false := by
  rw [List.forall_mem_flatMap]
  exact fun path _ => path.not_isRow_of_mem_parts

theorem Scalar.not_isRow_of_mem_parts (s : Scalar) : ∀ part ∈ s.parts, part.isRow = false := by
  cases s with
  | number raw span =>
      rw [Scalar.parts, List.forall_mem_singleton]
      rfl
  | string content => exact content.not_isRow_of_mem_parts
  | _ => simp [Scalar.parts]

theorem Import.not_isRow_of_mem_parts (file : Import) :
    ∀ part ∈ file.parts, part.isRow = false := by
  rw [Import.parts, List.forall_mem_cons]
  exact ⟨rfl, file.path.not_isRow_of_mem_parts⟩

theorem Edge.not_isRow_of_mem_parts (e : Edge) : ∀ part ∈ e.parts, part.isRow = false := by
  rw [Edge.parts, List.forall_mem_cons, List.forall_mem_cons, List.forall_mem_append]
  exact ⟨rfl, rfl, KeyPath.not_isRow_of_mem_flatMap, KeyPath.not_isRow_of_mem_flatMap⟩

/-! ## The values of a tree -/

mutual

/-- The values that stand inside a value, at any depth. -/
def Value.valuesBelow : Value → List Value
  | .array content => content.values
  | .map content => content.values
  | _ => []

/-- The values that stand in an array, at any depth. -/
def ArrayLit.values : ArrayLit → List Value
  | ⟨nodes, _⟩ => Node.entryValues nodes

/-- The values that stand in a map, at any depth. -/
def MapLit.values : MapLit → List Value
  | ⟨nodes, _, _⟩ => Node.entryValues nodes

/-- The value of a key, and those inside it. -/
def Key.values : Key → List Value
  | ⟨_, _, _, _, _, _, value, _⟩ => Value.valuesOption value

/-- A value, if there is one, and those inside it. -/
def Value.valuesOption : Option Value → List Value
  | none => []
  | some value => value :: value.valuesBelow

/-- The values of a tree, among them the tree itself if it is one. -/
def Node.values : Node → List Value
  | .value content => content :: content.valuesBelow
  | .key content => content.values
  | _ => []

/-- The values of the entries of an array or a map. -/
def Node.entryValues : List Node → List Value
  | [] => []
  | node :: rest => node.values ++ Node.entryValues rest

end

/-- The values of a tree below its root. -/
def Node.valuesBelow : Node → List Value
  | .value content => content.valuesBelow
  | node => node.values

/-- The entries of a value that is an array or a map. -/
def Value.nodes : Value → List Node
  | .array content => content.nodes
  | .map content => content.nodes
  | _ => []

/-- Whether a value is a file. -/
def Value.isFile : Value → Bool
  | .map content => content.isFile
  | _ => false

/-- A value that is not a file and all of whose entries print something. -/
structure Value.IsFull (v : Value) : Prop where
  printed : ∀ node ∈ v.nodes, node.toDoc ≠ .nil
  isFile : v.isFile = false

mutual

theorem Value.isFilled_toDoc :
    ∀ v : Value, v.IsFull → (∀ w ∈ v.valuesBelow, w.IsFull) → v.toDoc.IsFilled
  | .scalar content, _, _ => by
      rw [Value.toDoc]
      exact Part.ensures_isFilled.scalar content content.not_isRow_of_mem_parts
  | .imported file, _, _ => by
      rw [Value.toDoc]
      exact Part.ensures_isFilled.imported file file.not_isRow_of_mem_parts
  | .array ⟨nodes, span⟩, hfull, hbelow => by
      rw [Value.valuesBelow, ArrayLit.values] at hbelow
      rw [Value.toDoc, ArrayLit.toDoc]
      exact ArrayLit.isFilled_docOf (Node.isPrinted_entries nodes hfull.printed hbelow)
  | .map ⟨nodes, span, isFile⟩, hfull, hbelow => by
      rw [Value.valuesBelow, MapLit.values] at hbelow
      obtain rfl : isFile = false := hfull.isFile
      rw [Value.toDoc, MapLit.toDoc]
      exact MapLit.isFilled_docOf (Node.isPrinted_entries nodes hfull.printed hbelow)

theorem Key.isFilled_toDoc :
    ∀ k : Key, (∀ w ∈ k.values, w.IsFull) → k.toDoc.IsFilled
  | ⟨marker, path, edges, index, edgePath, primary, value, span⟩, hvalues => by
      rw [Key.values] at hvalues
      have hedges : ∀ part ∈ edges.flatMap Edge.parts, part.isRow = false :=
        List.forall_mem_flatMap.mpr fun e _ => e.not_isRow_of_mem_parts
      have hprimary : ∀ part ∈ primary.toList.flatMap Scalar.parts, part.isRow = false :=
        List.forall_mem_flatMap.mpr fun s _ => s.not_isRow_of_mem_parts
      rw [Key.toDoc]
      exact Part.ensures_isFilled.keyDoc marker index KeyPath.not_isRow_of_mem_flatMap hedges
        KeyPath.not_isRow_of_mem_flatMap hprimary (Value.isFilled_printed value hvalues)

theorem Value.isFilled_printed :
    ∀ value : Option Value, (∀ w ∈ Value.valuesOption value, w.IsFull) →
      ∀ d ∈ Value.printed? value, d.IsFilled
  | none, _ => by simp [Value.printed?]
  | some v, hvalues => by
      rw [Value.valuesOption, List.forall_mem_cons] at hvalues
      rw [Value.printed?]
      split
      · simp
      · rintro d ⟨⟩
        exact v.isFilled_toDoc hvalues.1 hvalues.2

/-- A tree starts with a text, and so does each of its lines. -/
theorem Node.isFilled_toDoc :
    ∀ node : Node, (∀ w ∈ node.values, w.IsFull) → node.toDoc.IsFilled
  | .comment content, _ => by
      rw [Node.toDoc]
      exact content.isFilled_toDoc
  | .value content, hvalues => by
      rw [Node.values, List.forall_mem_cons] at hvalues
      rw [Node.toDoc]
      exact content.isFilled_toDoc hvalues.1 hvalues.2
  | .substitution content, _ => by
      rw [Node.toDoc]
      exact Part.ensures_isFilled.reference content content.not_isRow_of_mem_parts
  | .key content, hvalues => by
      rw [Node.values] at hvalues
      rw [Node.toDoc]
      exact content.isFilled_toDoc hvalues
  | .keyPath content, _ => by
      rw [Node.toDoc]
      exact Part.ensures_isFilled.path content content.not_isRow_of_mem_parts
  | .edge content, _ => by
      rw [Node.toDoc]
      exact Part.ensures_isFilled.edge content content.not_isRow_of_mem_parts
  | .edgeIndex content, _ => by
      rw [Node.toDoc]
      exact Part.ensures_isFilled.edgeIndex content

theorem Node.isPrinted_entries :
    ∀ nodes : List Node, (∀ node ∈ nodes, node.toDoc ≠ .nil) →
      (∀ w ∈ Node.entryValues nodes, w.IsFull) → ∀ e ∈ Node.entries nodes, e.IsPrinted
  | [], _, _ => by simp [Node.entries]
  | node :: rest, hprinted, hvalues => by
      rw [List.forall_mem_cons] at hprinted
      rw [Node.entryValues, List.forall_mem_append] at hvalues
      rw [Node.entries, List.forall_mem_cons]
      exact ⟨⟨hprinted.1, node.isFilled_toDoc hvalues.1⟩,
        Node.isPrinted_entries rest hprinted.2 hvalues.2⟩

end

/-! ## The lines of a text -/

namespace Line

/-- If every bare line is followed by a line break, the lines that bare lines open are empty. -/
theorem text_eq_empty_of_mem_cut {line : Line} {leaves : List Leaf}
    (hleaves : Leaf.Followed Leaf.isBare Leaf.isBreak leaves)
    (hline : line.isBare = true → line.text = "" ∧ Leaf.EndLine leaves) :
    ∀ l ∈ cut line leaves, l.isBare = true → l.text = "" := by
  induction leaves generalizing line with
  | nil =>
      rw [cut, List.forall_mem_singleton]
      exact fun hbare => (hline hbare).1
  | cons leaf rest ih =>
      rw [Leaf.followed_cons] at hleaves
      cases leaf with
      | text s =>
          refine ih hleaves.2 fun hbare => ?_
          have hend := (Leaf.endLine_cons _ _).mp (hline hbare).2
          exact absurd hend Bool.false_ne_true
      | hardLine level =>
          rw [cut, List.forall_mem_cons]
          exact ⟨fun hbare => (hline hbare).1, ih hleaves.2 fun hbare => absurd hbare
            Bool.false_ne_true⟩
      | bareLine =>
          rw [cut, List.forall_mem_cons]
          refine ⟨fun hbare => (hline hbare).1, ih hleaves.2 fun _ => ⟨rfl, ?_⟩⟩
          obtain ⟨follower, hfollower, hbreak⟩ := hleaves.1 rfl
          intro leaf hleaf
          rw [hfollower, Option.mem_some] at hleaf
          exact hleaf ▸ hbreak

/-- If a text follows every hard line behind which something is printed, the lines without a
text are not indented. -/
theorem level_eq_zero_of_mem_cut_of_text {line : Line} {leaves : List Leaf}
    (hleaves : Leaf.Followed Leaf.isIndented Leaf.isWritten leaves)
    (hline : line.text = "" → line.level = 0 ∨ Leaf.StartsWith Leaf.isWritten leaves) :
    ∀ l ∈ cut line leaves, l.text = "" → l.level = 0 := by
  -- a line that a break closes has its level from itself, since no text is to come
  have hclosed : ∀ {line : Line} {leaf : Leaf} {rest : List Leaf}, leaf.isWritten = false →
      (line.text = "" → line.level = 0 ∨ Leaf.StartsWith Leaf.isWritten (leaf :: rest)) →
      line.text = "" → line.level = 0 := by
    intro line leaf rest hleaf hline htext
    rcases hline htext with hlevel | hstart
    · exact hlevel
    · rw [Leaf.startsWith_cons, hleaf] at hstart
      exact absurd hstart Bool.false_ne_true
  induction leaves generalizing line with
  | nil =>
      rw [cut, List.forall_mem_singleton]
      intro htext
      rcases hline htext with hlevel | ⟨leaf, hleaf, -⟩
      · exact hlevel
      · exact absurd hleaf (by simp)
  | cons leaf rest ih =>
      rw [Leaf.followed_cons] at hleaves
      cases leaf with
      | text s =>
          refine ih hleaves.2 fun htext => .inl ?_
          obtain ⟨hfront, rfl⟩ := String.append_eq_empty_iff.mp htext
          show line.level = 0
          exact hclosed rfl hline hfront
      | hardLine level =>
          rw [cut, List.forall_mem_cons]
          refine ⟨hclosed rfl hline, ih hleaves.2 fun _ => ?_⟩
          by_cases hlevel : level = 0
          · exact .inl hlevel
          · exact .inr (hleaves.1 (bne_iff_ne.mpr hlevel))
      | bareLine =>
          rw [cut, List.forall_mem_cons]
          exact ⟨hclosed rfl hline, ih hleaves.2 fun _ => .inl rfl⟩

end Line

/-- The leaves of a tree in which every entry prints something and only the root may be a file:
every hard line is followed by a text, except the last leaf of a file. -/
theorem Node.followed_leaves {node : Node}
    (hprinted : ∀ v ∈ node.values, ∀ entry ∈ v.nodes, entry.toDoc ≠ .nil)
    (hfile : ∀ v ∈ node.valuesBelow, v.isFile = false) :
    Leaf.Followed Leaf.isHard Leaf.isWritten (node.toDoc.leaves 0) ∨
      (∃ m, node = .value (.map m) ∧ m.isFile = true) ∧
        ∃ front, node.toDoc.leaves 0 = front ++ [.hardLine 0] ∧
          Leaf.Followed Leaf.isHard Leaf.isWritten front := by
  by_cases hroot : ∃ m, node = .value (.map m) ∧ m.isFile = true
  · obtain ⟨⟨nodes, span, isFile⟩, rfl, rfl⟩ := hroot
    rw [Node.values, List.forall_mem_cons] at hprinted
    have hbelow : ∀ v ∈ (Value.map ⟨nodes, span, true⟩).valuesBelow, v.IsFull := fun v hv =>
      ⟨hprinted.2 v hv, hfile v hv⟩
    rw [Value.valuesBelow, MapLit.values] at hbelow
    have hentries := Node.isPrinted_entries nodes hprinted.1 hbelow
    rw [Node.toDoc, Value.toDoc, MapLit.toDoc]
    rcases MapLit.leaves_docOf_file hentries 0 with hnil | hfront
    · rw [hnil]
      exact .inl Leaf.followed_nil
    · exact .inr ⟨⟨_, rfl, rfl⟩, hfront⟩
  · refine .inl ((node.isFilled_toDoc fun v hv => ⟨hprinted v hv, ?_⟩).followed 0)
    cases node with
    | value content =>
        rw [Node.values, List.mem_cons] at hv
        rcases hv with rfl | hv
        · rw [← Bool.not_eq_true]
          intro hisFile
          cases v with
          | map m => exact hroot ⟨m, rfl, hisFile⟩
          | _ => exact absurd hisFile Bool.false_ne_true
        · exact hfile v hv
    | _ => exact hfile v hv

/-- **What follows a line break.**  In the leaves of every tree a bare line is directly followed
by a line break, so the lines that bare lines open are empty.  If every entry of every map and
array of the tree prints something, and no map below the root is a file, then every hard line is
directly followed by a text that is not empty, except the last leaf of a tree that is a file; so
no line of the text consists of its indentation only. -/
theorem Node.follower_of_break (node : Node) :
    (∀ k, (node.toDoc.leaves 0)[k]? = some .bareLine →
      ∃ leaf, (node.toDoc.leaves 0)[k + 1]? = some leaf ∧ leaf.isBreak = true) ∧
    (∀ l ∈ node.lines, l.isBare = true → l.text = "") ∧
    ((∀ v ∈ node.values, ∀ entry ∈ v.nodes, entry.toDoc ≠ .nil) →
      (∀ v ∈ node.valuesBelow, v.isFile = false) →
      (∀ k level, (node.toDoc.leaves 0)[k]? = some (.hardLine level) →
        (∃ s, (node.toDoc.leaves 0)[k + 1]? = some (.text s) ∧ s ≠ "") ∨
          (∃ m, node = .value (.map m) ∧ m.isFile = true) ∧
            k + 1 = (node.toDoc.leaves 0).length) ∧
      ∀ l ∈ node.lines, l.text = "" → l.level = 0) := by
  have hbare := node.closesBlanks_toDoc 0
  refine ⟨fun k hk => hbare k _ hk rfl, ?_, ?_⟩
  · exact Line.text_eq_empty_of_mem_cut hbare fun h => absurd h Bool.false_ne_true
  · intro hprinted hfile
    rcases Node.followed_leaves hprinted hfile with hall | ⟨hroot, front, hleaves, hfront⟩
    · refine ⟨fun k level hk => .inl (hall.exists_text hk), ?_⟩
      exact Line.level_eq_zero_of_mem_cut_of_text hall.of_isIndented fun _ => .inl rfl
    · have hlast : Leaf.Followed Leaf.isIndented Leaf.isWritten [.hardLine 0] :=
        Leaf.followed_cons.mpr ⟨fun h => absurd h Bool.false_ne_true, Leaf.followed_nil⟩
      rw [lines, Doc.lines, hleaves]
      refine ⟨fun k level hk => ?_, Line.level_eq_zero_of_mem_cut_of_text
        (hfront.of_isIndented.append hlast) fun _ => .inl rfl⟩
      rcases Nat.lt_or_ge k front.length with hlt | hge
      · rw [List.getElem?_append_left hlt] at hk
        obtain ⟨s, hs, hne⟩ := hfront.exists_text hk
        have hlt' := (List.getElem?_eq_some_iff.mp hs).1
        exact .inl ⟨s, by rwa [List.getElem?_append_left hlt'], hne⟩
      · have hlt' := (List.getElem?_eq_some_iff.mp hk).1
        rw [List.length_append, List.length_singleton] at hlt' ⊢
        exact .inr ⟨hroot, by omega⟩

/-- A file with a comment, a blank line, and a key whose map goes over several lines and has a
blank line in it as well. -/
def Node.gappedFile : Node :=
  .value (.map (.file [
    .comment ⟨.line, "top", .ofLine 1⟩,
    .key { Key.ofPath (.ofTexts ["a"]) with
      value := some (.map ⟨[
        .comment ⟨.line, "first", .ofLine 4⟩,
        .comment ⟨.block, "x\n\ny", .ofLines 6 10⟩], .ofLines 3 11, false⟩)
      span := .ofLines 3 11 }]))

/-- The conditions hold of a file with blank lines at two levels, and none of its lines is made of
spaces. -/
theorem Node.follower_of_break_gappedFile :
    (∀ v ∈ gappedFile.values, ∀ entry ∈ v.nodes, entry.toDoc ≠ .nil) ∧
      (∀ v ∈ gappedFile.valuesBelow, v.isFile = false) ∧
      Leaf.bareLine ∈ gappedFile.toDoc.leaves 0 ∧ Leaf.hardLine 1 ∈ gappedFile.toDoc.leaves 0 ∧
      ∀ l ∈ gappedFile.lines, l.text = "" → l.level = 0 := by
  have hprinted : ∀ v ∈ gappedFile.values, ∀ entry ∈ v.nodes, entry.toDoc ≠ .nil := by
    decide +kernel
  have hfile : ∀ v ∈ gappedFile.valuesBelow, v.isFile = false := by decide +kernel
  exact ⟨hprinted, hfile, by decide +kernel, by decide +kernel,
    ((follower_of_break gappedFile).2.2 hprinted hfile).2⟩

end DiagramText
