/-!
# Documents

A document is a text whose line breaks are marked, so that it can be indented
after it has been put together.  There is nothing to decide when it is printed:
whether a map stands on one line or on many is settled by the time its document
is built, and no line is ever broken because it is too long.

There are two line breaks.  A *hard line* is followed by the indentation of the
place where it stands.  A *bare line* is followed by nothing; it is meant for
blank lines, which should not end in spaces.

## Keeping the empty document out

Whether something has been printed at all decides about separators and brackets:
an empty map is `{}` and not `{  }`.  The constructors do not help with that
question, since a document may be made of many empty parts.  The operations of
this file do.  `ofString`, `nest` and `++` give the empty document `nil` whenever
the result would print nothing, so that a document put together by them prints
nothing exactly when it is `nil`.

The concatenation of a list goes from left to right, and so does `join`.  The
nesting of `cat` in the result is part of what they promise: two documents with
the same text need not be the same document.
-/

namespace DiagramText

/-- A text with marked line breaks and indentation. -/
inductive Doc where
  /-- The empty document. -/
  | nil
  /-- A stretch of text within a line. -/
  | text (s : String)
  /-- A line break followed by the current indentation. -/
  | hardLine
  /-- A line break followed by no indentation. -/
  | bareLine
  /-- A document indented by one level more. -/
  | indent (d : Doc)
  /-- One document after another. -/
  | cat (a b : Doc)
  deriving DecidableEq

namespace Doc

/-- Whether a document is the empty one. -/
def isNil : Doc → Bool
  | nil => true
  | _ => false

/-- A text as a document; the empty text is the empty document. -/
def ofString (s : String) : Doc := if s.isEmpty then nil else text s

/-- Indents a document by one level more; the empty document has no lines to
indent. -/
def nest : Doc → Doc
  | nil => nil
  | d => indent d

/-- One document after another, where the empty document leaves no trace. -/
def append : Doc → Doc → Doc
  | nil, b => b
  | a, nil => a
  | a, b => cat a b

instance : Append Doc := ⟨append⟩

/-- The documents of a list one after the other. -/
def concat (ds : List Doc) : Doc := ds.foldl (· ++ ·) nil

/-- The documents of a list with a separator between neighbours.  A separator
stands next to an empty document as well. -/
def join (sep : Doc) : List Doc → Doc
  | [] => nil
  | d :: ds => ds.foldl (fun done next => done ++ sep ++ next) d

/-- A document between an opening and a closing one. -/
def surround (opening content closing : Doc) : Doc := opening ++ content ++ closing

/-- Whether a list of documents comes to nothing. -/
def allNil (ds : List Doc) : Bool := ds.all isNil

/-! ## The empty document -/

@[simp] theorem isNil_iff (d : Doc) : d.isNil = true ↔ d = nil := by
  cases d <;> simp [isNil]

@[simp] theorem ofString_empty : ofString "" = nil := rfl

theorem ofString_of_ne {s : String} (h : s ≠ "") : ofString s = text s := by
  have h' : s.isEmpty = false := by simpa using h
  simp [ofString, h']

theorem ofString_eq_nil_iff (s : String) : ofString s = nil ↔ s = "" := by
  constructor
  · intro h
    by_cases hs : s = ""
    · exact hs
    · rw [ofString_of_ne hs] at h
      exact absurd h (by simp)
  · rintro rfl
    rfl

@[simp] theorem nest_nil : nest nil = nil := rfl

theorem nest_of_ne {d : Doc} (h : d ≠ nil) : nest d = indent d := by
  cases d with
  | nil => exact absurd rfl h
  | _ => rfl

@[simp] theorem nest_eq_nil_iff (d : Doc) : nest d = nil ↔ d = nil := by
  cases d <;> simp [nest]

@[simp] theorem nil_append (d : Doc) : nil ++ d = d := rfl

@[simp] theorem append_nil (d : Doc) : d ++ nil = d := by
  cases d <;> rfl

theorem append_of_ne {a b : Doc} (ha : a ≠ nil) (hb : b ≠ nil) : a ++ b = cat a b := by
  cases a with
  | nil => exact absurd rfl ha
  | _ =>
      cases b with
      | nil => exact absurd rfl hb
      | _ => rfl

/-- One document after another is empty only if both are. -/
@[simp] theorem append_eq_nil_iff (a b : Doc) : a ++ b = nil ↔ a = nil ∧ b = nil := by
  by_cases ha : a = nil
  · simp [ha]
  · by_cases hb : b = nil
    · simp [hb]
    · simp [append_of_ne ha hb, ha]

/-! ## Lists of documents -/

@[simp] theorem concat_nil : concat [] = nil := rfl

@[simp] theorem concat_singleton (d : Doc) : concat [d] = d := rfl

/-- A document at the end of a list goes to the end of the concatenation. -/
theorem concat_append_singleton (ds : List Doc) (d : Doc) :
    concat (ds ++ [d]) = concat ds ++ d := by
  simp [concat]

theorem foldl_append_eq_nil_iff (ds : List Doc) (d : Doc) :
    ds.foldl (· ++ ·) d = nil ↔ d = nil ∧ ∀ e ∈ ds, e = nil := by
  induction ds generalizing d with
  | nil => simp
  | cons e es ih =>
      rw [List.foldl_cons, ih, append_eq_nil_iff, List.forall_mem_cons, and_assoc]

/-- A list of documents concatenates to nothing only if all of them are
nothing. -/
theorem concat_eq_nil_iff (ds : List Doc) : concat ds = nil ↔ ∀ d ∈ ds, d = nil := by
  simp [concat, foldl_append_eq_nil_iff]

theorem allNil_iff (ds : List Doc) : allNil ds = true ↔ ∀ d ∈ ds, d = nil := by
  simp [allNil]

/-- The test that decides about brackets is the test for the empty document. -/
theorem allNil_iff_concat (ds : List Doc) : allNil ds = true ↔ concat ds = nil := by
  rw [allNil_iff, concat_eq_nil_iff]

@[simp] theorem join_nil (sep : Doc) : join sep [] = nil := rfl

@[simp] theorem join_singleton (sep d : Doc) : join sep [d] = d := rfl

end Doc

end DiagramText
