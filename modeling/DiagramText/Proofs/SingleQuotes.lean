import DiagramText.Proofs.KeyText
import DiagramText.Proofs.Reading.Quoted

/-!
# Strings between single quotes

Between single quotes nothing takes away the meaning of a character, and the quote itself is
written by writing it twice.  That much can be undone.  A line feed cannot be written at all, and
is spelled out with the two characters that stand for it between double quotes; here they stand
for themselves, and so the line feed is lost.

Writing is therefore done in two steps: first every line feed is spelled out
(`Text.newlinesSpelled`), and then every quote is doubled (`Escape.doubled`).  The second step
loses nothing, so two texts are written alike exactly if they agree after the first.

## Where the string ends

A reader takes two quotes for one, and ends at a quote that no other follows.  A run of quotes at
the end of the text stands next to the closing quote, and the reader pairs them up from the left;
the run has an even length, so the quote that is left over is the closing one.  It takes what
follows the string to tell whether a quote is left over, hence the condition on it.  The reader is
exact (`Reading.singleQuoted_eq_some_iff`): it finds a string only where a doubled text stands in
front of a quote that no other follows.
-/

namespace DiagramText

/-- A text with every line feed spelled out as a backslash and an `n`. -/
def Text.newlinesSpelled (s : String) : String :=
  String.ofList (s.toList.flatMap Reading.spelledOut)

namespace Escape

/-- A text with every single quote written twice. -/
def doubled (cs : List Char) : List Char :=
  cs.flatMap fun c => if c = '\x27' then ['\x27', '\x27'] else [c]

/-- A text in which two single quotes next to each other are taken for one, from left to right. -/
def undoubled : List Char → List Char
  | '\x27' :: '\x27' :: rest => '\x27' :: undoubled rest
  | c :: rest => c :: undoubled rest
  | [] => []

theorem doubled_cons_quote (cs : List Char) :
    doubled ('\x27' :: cs) = '\x27' :: '\x27' :: doubled cs := by
  simp [doubled]

theorem doubled_cons_of_ne {c : Char} (h : c ≠ '\x27') (cs : List Char) :
    doubled (c :: cs) = c :: doubled cs := by
  simp [doubled, h]

theorem undoubled_cons_of_ne {c : Char} (h : c ≠ '\x27') (cs : List Char) :
    undoubled (c :: cs) = c :: undoubled cs := by
  rw [undoubled]
  rintro tail rfl
  exact absurd rfl h

/-- Doubling can be undone. -/
theorem undoubled_doubled (cs : List Char) : undoubled (doubled cs) = cs := by
  induction cs with
  | nil => simp [doubled, undoubled]
  | cons c cs ih =>
      by_cases hc : c = '\x27'
      · rw [hc, doubled_cons_quote, undoubled, ih]
      · rw [doubled_cons_of_ne hc, undoubled_cons_of_ne hc, ih]

theorem doubled_append (as bs : List Char) : doubled (as ++ bs) = doubled as ++ doubled bs := by
  rw [doubled, List.flatMap_append, doubled, doubled]

/-- One character is written by spelling it out and doubling what is a quote. -/
theorem singleQuotedChar_eq_doubled (c : Char) :
    singleQuotedChar c = doubled (Reading.spelledOut c) := by
  rw [singleQuotedChar, Reading.spelledOut]
  by_cases hquote : c = '\x27'
  · rw [hquote]
    rfl
  · by_cases hnewline : c = '\n'
    · rw [hnewline]
      rfl
    · rw [if_neg hquote, if_neg hnewline, doubled_cons_of_ne hquote]
      rfl

/-- A text is written by spelling out its line feeds and doubling its quotes. -/
theorem toList_singleQuoted_eq_doubled (s : String) :
    (singleQuoted s).toList = doubled (Text.newlinesSpelled s).toList := by
  rw [toList_singleQuoted, Text.newlinesSpelled, String.toList_ofList]
  induction s.toList with
  | nil => rfl
  | cons c cs ih =>
      rw [singleQuotedChars_cons, List.flatMap_cons, doubled_append, ih,
        singleQuotedChar_eq_doubled]

end Escape

namespace Reading

/-- **The reader finds exactly the doubled texts.** -/
theorem singleQuoted_eq_some_iff (text content rest : List Char) :
    singleQuoted text = some (content, rest) ↔
      text = Escape.doubled content ++ '\x27' :: rest ∧ rest.head? ≠ some '\x27' := by
  constructor
  · intro h
    fun_induction singleQuoted text generalizing content with
    | case1 => exact absurd h (by simp)
    | case2 tail ih =>
        obtain ⟨⟨found, left⟩, hfound, hpushed⟩ := Option.map_eq_some_iff.mp h
        obtain ⟨rfl, rfl⟩ := Prod.mk.inj hpushed
        obtain ⟨htail, hrest⟩ := ih found hfound
        refine ⟨?_, hrest⟩
        rw [List.singleton_append, Escape.doubled_cons_quote, List.cons_append, List.cons_append,
          ← htail]
    | case3 tail hne =>
        obtain ⟨rfl, rfl⟩ := Prod.mk.inj (Option.some.inj h)
        refine ⟨rfl, fun hhead => ?_⟩
        obtain ⟨more, hmore⟩ := List.head?_eq_some_iff.mp hhead
        exact hne more hmore
    | case4 c tail _ hquote ih =>
        obtain ⟨⟨found, left⟩, hfound, hpushed⟩ := Option.map_eq_some_iff.mp h
        obtain ⟨rfl, rfl⟩ := Prod.mk.inj hpushed
        obtain ⟨htail, hrest⟩ := ih found hfound
        refine ⟨?_, hrest⟩
        rw [List.singleton_append, Escape.doubled_cons_of_ne hquote, List.cons_append, ← htail]
  · rintro ⟨rfl, hrest⟩
    induction content with
    | nil => exact singleQuoted_quote hrest
    | cons c cs ih =>
        by_cases hc : c = '\x27'
        · rw [hc, Escape.doubled_cons_quote, List.cons_append, List.cons_append,
            singleQuoted_doubled, ih]
          rfl
        · rw [Escape.doubled_cons_of_ne hc, List.cons_append, singleQuoted_of_ne hc, ih]
          rfl

end Reading

/-- A text without a line feed has nothing to spell out. -/
theorem Text.newlinesSpelled_of_notMem {s : String} (h : '\n' ∉ s.toList) :
    newlinesSpelled s = s := by
  rw [newlinesSpelled, Reading.flatMap_spelledOut_of_notMem h, String.ofList_toList]

/-- Two texts are written alike between single quotes exactly if they agree once their line feeds
are spelled out. -/
theorem Escape.singleQuoted_eq_singleQuoted_iff (s t : String) :
    singleQuoted s = singleQuoted t ↔ Text.newlinesSpelled s = Text.newlinesSpelled t := by
  rw [← String.toList_inj, toList_singleQuoted_eq_doubled, toList_singleQuoted_eq_doubled,
    ← String.toList_inj]
  constructor
  · intro h
    rw [← undoubled_doubled (Text.newlinesSpelled s).toList, h, undoubled_doubled]
  · intro h
    rw [h]

/-- **Between single quotes a text is read back up to its line feeds.**  A reader of single quotes
finds exactly the doubled texts, and what is written for a text is one: the reader comes to the
closing quote and no further, whatever quotes the text has and whatever follows but another quote,
and finds the text with its line feeds spelled out.  So two texts are written alike exactly if they
agree after that, as texts between quotes and as printed strings. -/
theorem StringLit.format_singleQuoted_eq_iff :
    (∀ text content rest : List Char, Reading.singleQuoted text = some (content, rest) ↔
      text = Escape.doubled content ++ '\x27' :: rest ∧ rest.head? ≠ some '\x27') ∧
    (∀ (s : String) (rest : List Char), rest.head? ≠ some '\x27' →
      Reading.singleQuoted ((Escape.singleQuoted s).toList ++ '\x27' :: rest) =
        some ((Text.newlinesSpelled s).toList, rest)) ∧
    (∀ s t : String, Escape.singleQuoted s = Escape.singleQuoted t ↔
      Text.newlinesSpelled s = Text.newlinesSpelled t) ∧
    ∀ (i : Indentation) (s t : String) (span span' : Span),
      (Node.ofString (.singleQuoted s span)).format i =
          (Node.ofString (.singleQuoted t span')).format i ↔
        Text.newlinesSpelled s = Text.newlinesSpelled t := by
  refine ⟨Reading.singleQuoted_eq_some_iff, fun s rest hrest => ?_,
    Escape.singleQuoted_eq_singleQuoted_iff, fun i s t span span' => ?_⟩
  · rw [Reading.singleQuoted_eq_some_iff, Escape.toList_singleQuoted_eq_doubled]
    exact ⟨rfl, hrest⟩
  · rw [Node.format_eq_iff_chars, Node.ofString_eq, Node.ofString_eq, Node.toDoc, Node.toDoc,
      Value.toDoc, Value.toDoc, Scalar.toDoc, Scalar.toDoc, chars_singleQuoted, chars_singleQuoted,
      List.cons.injEq, List.append_left_inj, ← Escape.toList_singleQuoted,
      ← Escape.toList_singleQuoted, String.toList_inj, Escape.singleQuoted_eq_singleQuoted_iff]
    exact and_iff_right rfl

/-- A text that ends in quotes, with a quote in front of a line feed, is read up to the quote that
closes it. -/
theorem StringLit.format_singleQuoted_eq_iff_quotesAtEnd :
    (": x".toList).head? ≠ some '\x27' ∧
      Reading.singleQuoted ((Escape.singleQuoted "it\x27s\x27\n\x27\x27").toList ++
          '\x27' :: ": x".toList) =
        some ("it\x27s\x27\\n\x27\x27".toList, ": x".toList) := by
  have hrest : (": x".toList).head? ≠ some '\x27' := by decide +kernel
  have hspelled : Text.newlinesSpelled "it\x27s\x27\n\x27\x27" = "it\x27s\x27\\n\x27\x27" := by
    decide +kernel
  have hread := format_singleQuoted_eq_iff.2.1 "it\x27s\x27\n\x27\x27" ": x".toList hrest
  rw [hspelled] at hread
  exact ⟨hrest, hread⟩

end DiagramText
