import DiagramText.Doc.Basic
import DiagramText.Indentation

/-!
# The text of a document

`render i n d` is the text of the document `d` at level `n` under the
indentation `i`.  It is defined by recursion on the document and says what a
document means; how it is printed in one pass is the subject of
`Doc.Printer`.

The operations on documents are operations on lists of texts: concatenation
becomes concatenation, `join` puts the text of the separator between
neighbours, and `nest` adds a level.  Empty documents among the parts make no
difference, although the operations drop them.
-/

namespace DiagramText
namespace Doc

/-- The text of a document at a level of indentation. -/
def render (i : Indentation) : Nat → Doc → String
  | _, nil => ""
  | _, text s => s
  | n, hardLine => "\n" ++ i.text n
  | _, bareLine => "\n"
  | n, indent d => render i (n + 1) d
  | n, cat a b => render i n a ++ render i n b

variable (i : Indentation) (n : Nat)

@[simp] theorem render_nil : render i n nil = "" := by simp [render]

@[simp] theorem render_text (s : String) : render i n (text s) = s := by simp [render]

@[simp] theorem render_hardLine : render i n hardLine = "\n" ++ i.text n := by simp [render]

@[simp] theorem render_bareLine : render i n bareLine = "\n" := by simp [render]

@[simp] theorem render_indent (d : Doc) : render i n (indent d) = render i (n + 1) d := by
  simp [render]

@[simp] theorem render_cat (a b : Doc) :
    render i n (cat a b) = render i n a ++ render i n b := by
  simp [render]

/-- A text is printed as it is, the empty text included. -/
@[simp] theorem render_ofString (s : String) : render i n (ofString s) = s := by
  by_cases h : s = ""
  · simp [h]
  · simp [ofString_of_ne h]

/-- Nesting adds a level of indentation, for the empty document too. -/
@[simp] theorem render_nest (d : Doc) : render i n (nest d) = render i (n + 1) d := by
  by_cases h : d = nil
  · simp [h]
  · simp [nest_of_ne h]

/-- One document after another prints one text after the other. -/
@[simp] theorem render_append (a b : Doc) :
    render i n (a ++ b) = render i n a ++ render i n b := by
  by_cases ha : a = nil
  · simp [ha]
  · by_cases hb : b = nil
    · simp [hb]
    · simp [append_of_ne ha hb]

theorem render_foldl_append (ds : List Doc) (d : Doc) :
    render i n (ds.foldl (· ++ ·) d) = render i n d ++ String.join (ds.map (render i n)) := by
  induction ds generalizing d with
  | nil => simp
  | cons e es ih => simp [ih, String.append_assoc]

/-- The concatenation of documents prints the concatenation of their texts. -/
theorem render_concat (ds : List Doc) :
    render i n (concat ds) = String.join (ds.map (render i n)) := by
  rw [concat, render_foldl_append, render_nil, String.empty_append]

/-- A first document may be taken off a concatenation. -/
@[simp] theorem render_concat_cons (d : Doc) (ds : List Doc) :
    render i n (concat (d :: ds)) = render i n d ++ render i n (concat ds) := by
  simp [render_concat]

/-- The concatenation of two lists prints their texts one after the other. -/
@[simp] theorem render_concat_append (as bs : List Doc) :
    render i n (concat (as ++ bs)) = render i n (concat as) ++ render i n (concat bs) := by
  simp [render_concat]

theorem render_foldl_join (sep : Doc) (ds : List Doc) (d : Doc) :
    render i n (ds.foldl (fun done next => done ++ sep ++ next) d) =
      render i n d ++ String.join (ds.map fun e => render i n sep ++ render i n e) := by
  induction ds generalizing d with
  | nil => simp
  | cons e es ih => simp [ih, String.append_assoc]

/-- Joined documents print their texts with the text of the separator in front
of each but the first. -/
theorem render_join_cons (sep d : Doc) (ds : List Doc) :
    render i n (join sep (d :: ds)) =
      render i n d ++ String.join (ds.map fun e => render i n sep ++ render i n e) :=
  render_foldl_join i n sep ds d

@[simp] theorem render_surround (opening content closing : Doc) :
    render i n (surround opening content closing) =
      render i n opening ++ render i n content ++ render i n closing := by
  simp [surround]

end Doc
end DiagramText
