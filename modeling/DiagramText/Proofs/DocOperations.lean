import DiagramText.Proofs.DocText

/-!
# What the operations on documents do to the text

The operations on documents are written with an eye on the empty document: `++` drops it, and
`concat`, `join` and `surround` are made of `++`.  Where it is dropped, the operations no longer
have the shape of what they mean.  `join`, for one, adds a separator and a document at every step
to what it has so far, and as long as that is the empty document it adds the separator to nothing.

Two things follow for a reader of a document, and they are the subject of this file.

* **What is printed does not depend on what is dropped** (`Doc.DenotesTexts`).  `concat` prints
  the texts one after the other, `join` prints all of them with the text of the separator between
  any two, and `surround` prints its three texts in their order.  This holds at the outermost level
  and below any number of indentations, whether these were put there by `nest`, which drops the
  empty document too, or by the constructor, which does not.
* **Emptiness is never lost and never invented.**  Layouts collect parts, one after the other, and
  then ask whether there is anything between the brackets.  They put the question to the list of
  the parts, before there is a document (`Doc.allNil`).  The answer is the one that the document
  gives, nested or not, and it is also the one that could have been given along the way: there is
  nothing if every addition was an empty text or the empty document (`Doc.allNil_addAll`).
-/

namespace DiagramText
namespace Doc

/-! ## Texts of lists of documents -/

/-- A way of giving each document a text for which the operations on documents are operations on
texts. -/
structure DenotesTexts (text : Doc → String) : Prop where
  /-- A concatenation has the texts of the documents one after the other. -/
  concat : ∀ ds, text (Doc.concat ds) = String.join (ds.map text)
  /-- Joined documents have the text of the separator between the texts of neighbours. -/
  join : ∀ sep ds, text (Doc.join sep ds) = String.intercalate (text sep) (ds.map text)
  /-- The text of the content stands between the two others. -/
  surround : ∀ opening content closing,
    text (Doc.surround opening content closing) = text opening ++ text content ++ text closing

/-- Joined documents print the text of the separator between the texts of neighbours. -/
theorem render_join (i : Indentation) (n : Nat) (sep : Doc) (ds : List Doc) :
    render i n (join sep ds) = String.intercalate (render i n sep) (ds.map (render i n)) := by
  apply String.toList_injective
  rw [String.toList_intercalate, List.map_map]
  exact chars_join i n sep ds

/-- At each level, what a document means is such a text. -/
theorem denotesTexts_render (i : Indentation) (n : Nat) : DenotesTexts (render i n) where
  concat := render_concat i n
  join := render_join i n
  surround := render_surround i n

/-- What is printed below some indentations is such a text, however they were put there. -/
theorem denotesTexts_print_iterate (i : Indentation) (n : Nat) {wrap : Doc → Doc}
    (hwrap : ∀ level d, render i level (wrap d) = render i (level + 1) d) :
    DenotesTexts fun d => print i (wrap^[n] d) := by
  have hprint : (fun d => print i (wrap^[n] d)) = render i n :=
    funext (print_iterate i n hwrap)
  rw [hprint]
  exact denotesTexts_render i n

/-! ## Collecting parts -/

/-- What can be added to a list of parts. -/
inductive Addition where
  | text (s : String)
  | hardLine
  | bareLine
  | doc (d : Doc)

/-- The part that is added. -/
def Addition.part : Addition → Doc
  | text s => ofString s
  | hardLine => .hardLine
  | bareLine => .bareLine
  | doc d => d

/-- Whether an addition adds nothing. -/
def Addition.isEmpty : Addition → Bool
  | text s => s.isEmpty
  | doc d => d.isNil
  | _ => false

/-- One addition to a list of parts. -/
def add (parts : List Doc) (a : Addition) : List Doc := parts ++ [a.part]

/-- Additions to a list of parts, one after the other. -/
def addAll (parts : List Doc) (as : List Addition) : List Doc := as.foldl add parts

theorem Addition.isNil_part (a : Addition) : a.part.isNil = a.isEmpty := by
  cases a with
  | text s =>
      rw [Bool.eq_iff_iff, isNil_iff, part, ofString_eq_nil_iff, isEmpty, String.isEmpty_iff]
  | _ => rfl

/-- An addition keeps a list empty if it adds nothing, and not otherwise. -/
theorem allNil_add (parts : List Doc) (a : Addition) :
    allNil (add parts a) = (allNil parts && a.isEmpty) := by
  rw [add, allNil, List.all_append, List.all_cons, List.all_nil, Bool.and_true, a.isNil_part,
    allNil]

/-- A list is empty after some additions if it was empty before and none of them adds anything. -/
theorem allNil_addAll (parts : List Doc) (as : List Addition) :
    allNil (addAll parts as) = (allNil parts && as.all Addition.isEmpty) := by
  induction as generalizing parts with
  | nil => rw [addAll, List.foldl_nil, List.all_nil, Bool.and_true]
  | cons a as ih =>
      rw [addAll, List.foldl_cons, ← addAll, ih, allNil_add, List.all_cons, Bool.and_assoc]

/-! ## The operations -/

/-- **The operations on documents are operations on texts, and they keep track of emptiness.**
Under every indentation and below any number of indentations, concatenating, joining and
surrounding documents does the same to their texts, empty documents included.  Whatever is added
to a list of parts, the list counts as empty exactly if the document that is built of it is the
empty one, exactly if this document is the empty one after nesting, and exactly if none of the
additions adds anything. -/
theorem denotesTexts_print_and_allNil_iff :
    (∀ (i : Indentation) (n : Nat), DenotesTexts (fun d => print i (nest^[n] d)) ∧
      DenotesTexts (fun d => print i (indent^[n] d))) ∧
    ∀ as : List Addition,
      (allNil (addAll [] as) = true ↔ concat (addAll [] as) = nil) ∧
      (allNil (addAll [] as) = true ↔ nest (concat (addAll [] as)) = nil) ∧
      allNil (addAll [] as) = as.all Addition.isEmpty := by
  refine ⟨fun i n => ⟨?_, ?_⟩, fun as => ⟨?_, ?_, ?_⟩⟩
  · exact denotesTexts_print_iterate i n (render_nest i)
  · exact denotesTexts_print_iterate i n (render_indent i)
  · exact allNil_iff_concat _
  · rw [nest_eq_nil_iff]
    exact allNil_iff_concat _
  · exact allNil_addAll [] as

end Doc
end DiagramText
