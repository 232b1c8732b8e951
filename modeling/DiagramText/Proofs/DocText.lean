import DiagramText.Doc.Printer
import DiagramText.Layout.Literal
import Mathlib.Data.List.Basic
import Mathlib.Logic.Function.Iterate

/-!
# The characters of a document

Reading goes character by character, so what is said about reading is said about
lists of characters.  `Doc.chars` is the text of a document as such a list.  The
operations on documents become operations on lists: `++` is `++`, `concat` is
`flatMap`, and `join` is `List.intercalate`.

A string that is a single text has the same characters wherever its document is
printed, and they are those that the escapes say.
-/

namespace DiagramText

/-! ## Texts with a separator between them -/

namespace Text

variable {α : Type} (sep : List α)

/-- A separator stands in front of every text but the first. -/
theorem intercalate_cons_eq (first : List α) (others : List (List α)) :
    sep.intercalate (first :: others) = first ++ others.flatMap fun text => sep ++ text := by
  induction others generalizing first with
  | nil => simp
  | cons next others ih =>
      rw [List.intercalate_cons_cons, ih next, List.flatMap_cons, List.append_assoc,
        List.append_assoc]

/-- With one separator more at the end, a separator stands behind every text. -/
theorem intercalate_append_eq {texts : List (List α)} (h : texts ≠ []) :
    sep.intercalate texts ++ sep = texts.flatMap fun text => text ++ sep := by
  obtain ⟨first, others, rfl⟩ := List.exists_cons_of_ne_nil h
  induction others generalizing first with
  | nil => simp
  | cons next others ih =>
      rw [List.intercalate_cons_cons, List.append_assoc, ih next (by simp)]
      simp

/-- There is at most one text more than there are characters, since a separator
stands between any two. -/
theorem length_le_length_intercalate (hsep : sep ≠ []) (texts : List (List α)) :
    texts.length ≤ (sep.intercalate texts).length + 1 := by
  have hpos : 0 < sep.length := List.length_pos_iff.mpr hsep
  induction texts with
  | nil => simp
  | cons text texts ih =>
      cases texts with
      | nil => simp
      | cons next texts =>
          rw [List.intercalate_cons_cons, List.length_append, List.length_append,
            List.length_cons]
          omega

/-- Each of the texts is no longer than all of them together. -/
theorem length_le_length_intercalate_of_mem {text : List α} {texts : List (List α)}
    (h : text ∈ texts) : text.length ≤ (sep.intercalate texts).length := by
  induction texts with
  | nil => simp at h
  | cons first others ih =>
      cases others with
      | nil => simp_all
      | cons next others =>
          rw [List.intercalate_cons_cons, List.length_append, List.length_append]
          rcases List.mem_cons.mp h with rfl | h
          · omega
          · have hle := ih h
            omega

end Text

/-! ## Documents -/

namespace Doc

variable (i : Indentation) (n : Nat)

/-- The characters of the text of a document. -/
def chars (d : Doc) : List Char := (render i n d).toList

@[simp] theorem chars_nil : chars i n nil = [] := by
  rw [chars, render_nil, String.toList_empty]

@[simp] theorem chars_ofString (s : String) : chars i n (ofString s) = s.toList := by
  rw [chars, render_ofString]

@[simp] theorem chars_append (a b : Doc) :
    chars i n (a ++ b) = chars i n a ++ chars i n b := by
  rw [chars, render_append, String.toList_append, chars, chars]

@[simp] theorem chars_surround (opening content closing : Doc) :
    chars i n (surround opening content closing) =
      chars i n opening ++ chars i n content ++ chars i n closing := by
  rw [surround, chars_append, chars_append]

/-- A hard line is a line feed and the indentation of its level. -/
@[simp] theorem chars_hardLine : chars i n hardLine = '\n' :: i.chars n := by
  rw [chars, render_hardLine, String.toList_append, Indentation.toList_text]
  rfl

/-- A hard line at the outermost level is a line feed and nothing else. -/
theorem chars_hardLine_zero : chars i 0 hardLine = ['\n'] := by
  rw [chars_hardLine, Indentation.chars_zero]

/-- The concatenation of documents has the characters of the documents one after
the other. -/
theorem chars_concat (ds : List Doc) : chars i n (concat ds) = ds.flatMap (chars i n) := by
  rw [chars, render_concat, String.toList_join, List.flatMap_map]
  rfl

/-- Joined documents have the characters of the separator between those of
neighbours. -/
theorem chars_join (sep : Doc) (ds : List Doc) :
    chars i n (join sep ds) = (chars i n sep).intercalate (ds.map (chars i n)) := by
  cases ds with
  | nil => simp
  | cons d ds =>
      rw [chars, render_join_cons, List.map_cons, Text.intercalate_cons_eq]
      simp [chars, List.flatMap_map]

/-- What is put together list by list prints list by list. -/
theorem chars_concat_flatMap {α : Type} (f : α → List Doc) (xs : List α) :
    chars i n (concat (xs.flatMap f)) = xs.flatMap fun x => chars i n (concat (f x)) := by
  rw [chars_concat, List.flatMap_assoc]
  refine List.flatMap_congr fun x _ => ?_
  rw [chars_concat]

/-- What moves a document one level down moves it as many levels down as it is applied. -/
theorem render_iterate {wrap : Doc → Doc}
    (hwrap : ∀ level d, render i level (wrap d) = render i (level + 1) d) (level : Nat) (d : Doc) :
    render i level (wrap^[n] d) = render i (level + n) d := by
  induction n generalizing level with
  | zero => rfl
  | succ n ih => rw [Function.iterate_succ_apply', hwrap, ih, Nat.add_right_comm, Nat.add_assoc]

/-- Printing a document that is moved down some times prints it at that level. -/
theorem print_iterate {wrap : Doc → Doc}
    (hwrap : ∀ level d, render i level (wrap d) = render i (level + 1) d) (d : Doc) :
    print i (wrap^[n] d) = render i n d := by
  rw [print_eq_render, render_iterate i n hwrap, Nat.zero_add]

/-- Only the empty document is known to have no characters, so a document with
characters is not the empty one. -/
theorem ne_nil_of_chars_ne {d : Doc} (h : chars i n d ≠ []) : d ≠ nil := by
  rintro rfl
  exact h (chars_nil i n)

end Doc

/-! ## Strings that are a single text -/

namespace StringLit

variable (i : Indentation) (n : Nat) (ctx : Context) (s : String) (span : Span)

/-- The characters of a bare string that is a single text. -/
theorem chars_unquoted :
    Doc.chars i n (toDoc ctx (.unquoted [.text s] span)) =
      (Escape.unquoted ctx (Keyword.canonical s)).toList := by
  rw [toDoc]
  simp [Piece.wholeText?]

/-- The characters of a string between double quotes that is a single text. -/
theorem chars_doubleQuoted :
    Doc.chars i n (toDoc ctx (.doubleQuoted [.text s] span)) =
      '"' :: (Escape.doubleQuotedChars ctx s.toList ++ ['"']) := by
  rw [toDoc, Doc.chars_surround]
  by_cases hs : s = ""
  · simp [Piece.docs, hs]
  · simp [Piece.docs, hs]

/-- The characters of a string between single quotes. -/
theorem chars_singleQuoted :
    Doc.chars i n (toDoc ctx (.singleQuoted s span)) =
      '\x27' :: (Escape.singleQuotedChars s.toList ++ ['\x27']) := by
  rw [toDoc, Doc.chars_surround]
  simp

end StringLit

/-- The characters of a key path are those of its segments, with dots between. -/
theorem KeyPath.chars_toDoc (i : Indentation) (n : Nat) (segments : List StringLit)
    (span : Span) :
    Doc.chars i n (KeyPath.toDoc ⟨segments, span⟩) =
      ['.'].intercalate (segments.map fun segment => Doc.chars i n (segment.toDoc .key)) := by
  rw [KeyPath.toDoc, Doc.chars_join, StringLit.segmentDocs_eq_map, List.map_map,
    Doc.chars_ofString]
  rfl

end DiagramText
