import DiagramText.Format
import DiagramText.Proofs.DocText
import DiagramText.Proofs.Reading.Bare
import DiagramText.Proofs.TreeParts

/-!
# Brackets stay balanced

A bare string is the one kind of string that is written without a mark at its end.  If
its text holds brackets, only the backslashes in front of them keep it from closing the
map that it stands in.  This file shows that the backslashes are enough: whatever the
texts of a tree of bare strings are, its printed text has its braces and square brackets
properly nested, once every backslash is taken out together with the character behind
it.

* `Escape.removed` takes the escapes out of a text, from left to right.
* `Bracketing.nesting` reads a text with a stack of the closing brackets that are still to
  come.  A text is **balanced** if it can be read from the empty stack and leaves the
  stack empty.
* A text is **closed** if it does neither harm to what stands around it: its last
  character is no backslash that would swallow the next one, and whatever the stack is,
  reading the text leaves it as it is.  Closed texts can be put one after the other and
  between brackets, which balanced texts cannot before their escapes are taken out.

**The text of a tree of bare strings is balanced** (`Node.balanced_removed_format`),
because every string and every mark of punctuation in it is closed (`Escape.closed_unquoted`)
and brackets come in pairs around what is closed (`Closed.between`).  Numbers, directories
and arrows are printed as they are, so they must not hold brackets or backslashes
themselves.
-/

namespace DiagramText

/-! ## Escapes and brackets -/

/-- A text without its backslashes and the characters behind them. -/
def Escape.removed : List Char → List Char
  | [] => []
  | [c] => if c = '\\' then [] else [c]
  | c :: next :: rest => if c = '\\' then removed rest else c :: removed (next :: rest)

namespace Bracketing

/-- The bracket that closes what a character opens. -/
def closing? (c : Char) : Option Char :=
  if c = '\x7b' then some '\x7d' else if c = '[' then some ']' else none

/-- Whether a character is a closing bracket. -/
def isClosing (c : Char) : Bool := c == '\x7d' || c == ']'

/-- Reads a character.  The stack holds the closing brackets that are still to come,
the next one on top, and there is no result if another one comes. -/
def step (stack : List Char) (c : Char) : Option (List Char) :=
  match closing? c with
  | some closer => some (closer :: stack)
  | none =>
      if isClosing c then
        if stack.head? = some c then some stack.tail else none
      else some stack

/-- Reads the characters of a text one by one. -/
def nesting (stack text : List Char) : Option (List Char) := text.foldlM step stack

/-- A text whose brackets are properly nested and all closed. -/
def Balanced (text : List Char) : Prop := nesting [] text = some []

instance (text : List Char) : Decidable (Balanced text) :=
  inferInstanceAs (Decidable (nesting [] text = some []))

/-- The characters that matter for the brackets of a text. -/
def bound : List Char := ['\\', '\x7b', '\x7d', '[', ']']

/-- Whether a character is neither a bracket nor a backslash. -/
def isFree (c : Char) : Bool := !bound.contains c

theorem isFree_iff (c : Char) : isFree c = true ↔ ∀ d ∈ bound, c ≠ d := by
  rw [isFree, Bool.not_eq_true', List.contains_eq_mem, decide_eq_false_iff_not]
  exact ⟨fun h d hd hc => h (hc ▸ hd), fun h hc => h c hc rfl⟩

theorem ne_backslash_of_isFree {c : Char} (h : isFree c = true) : c ≠ '\\' :=
  (isFree_iff c).mp h _ (by decide)

/-- A character that does not pass a test which brackets and the backslash pass is free. -/
theorem isFree_of_test {t : Char → Bool} (hbound : bound.all t = true) {c : Char}
    (h : t c = false) : isFree c = true := by
  rw [isFree_iff]
  rintro d hd rfl
  rw [List.all_eq_true.mp hbound c hd] at h
  exact absurd h (by decide)

end Bracketing

namespace Escape

theorem removed_escape (c : Char) (rest : List Char) :
    removed ('\\' :: c :: rest) = removed rest := by
  simp [removed]

theorem removed_of_ne {c : Char} (h : c ≠ '\\') (rest : List Char) :
    removed (c :: rest) = c :: removed rest := by
  cases rest <;> simp [removed, h]

end Escape

namespace Bracketing

theorem nesting_cons {stack stack' : List Char} {c : Char} (h : step stack c = some stack')
    (rest : List Char) : nesting stack (c :: rest) = nesting stack' rest := by
  rw [nesting, List.foldlM_cons, h]
  rfl

theorem step_of_isFree {c : Char} (h : isFree c = true) (stack : List Char) :
    step stack c = some stack := by
  have hbound := (isFree_iff c).mp h
  have hopening : closing? c = none := by
    rw [closing?, if_neg (hbound _ (by decide)), if_neg (hbound _ (by decide))]
  have hclosing : isClosing c = false := by
    simp [isClosing, hbound '\x7d' (by decide), hbound ']' (by decide)]
  rw [step, hopening, hclosing]
  rfl

/-- There are two kinds of brackets. -/
theorem closing?_eq_some_iff (o c : Char) :
    closing? o = some c ↔ o = '\x7b' ∧ c = '\x7d' ∨ o = '[' ∧ c = ']' := by
  unfold closing?
  split
  · rename_i ho
    simp [ho, eq_comm]
  · split
    · rename_i ho
      simp [ho, eq_comm]
    · simp_all

theorem step_opening {o c : Char} (h : closing? o = some c) (stack : List Char) :
    step stack o = some (c :: stack) := by
  rw [step, h]

theorem step_closing {o c : Char} (h : closing? o = some c) (stack : List Char) :
    step (c :: stack) c = some stack := by
  rcases (closing?_eq_some_iff o c).mp h with ⟨-, rfl⟩ | ⟨-, rfl⟩
  · rfl
  · rfl

/-! ## Closed texts -/

/-- A text that leaves the text around it and its brackets alone. -/
structure Closed (text : List Char) : Prop where
  removed_append (rest : List Char) :
    Escape.removed (text ++ rest) = Escape.removed text ++ Escape.removed rest
  nesting_append (stack rest : List Char) :
    nesting stack (Escape.removed text ++ rest) = nesting stack rest

namespace Closed

/-- The text with its escapes taken out is balanced. -/
theorem balanced {text : List Char} (h : Closed text) : Balanced (Escape.removed text) := by
  have hread := h.nesting_append [] []
  rwa [List.append_nil] at hread

theorem nil : Closed [] := ⟨fun _ => rfl, fun _ _ => rfl⟩

theorem append {as bs : List Char} (ha : Closed as) (hb : Closed bs) : Closed (as ++ bs) where
  removed_append rest := by
    rw [List.append_assoc, ha.removed_append, ha.removed_append, hb.removed_append,
      List.append_assoc]
  nesting_append stack rest := by
    rw [ha.removed_append, List.append_assoc, ha.nesting_append, hb.nesting_append]

/-- A backslash and the character behind it. -/
theorem escape (c : Char) : Closed ['\\', c] where
  removed_append rest := by
    rw [List.cons_append, List.singleton_append, Escape.removed_escape, Escape.removed_escape]
    rfl
  nesting_append stack rest := by
    rw [Escape.removed_escape]
    rfl

theorem free {c : Char} (h : isFree c = true) : Closed [c] where
  removed_append rest := by
    rw [List.singleton_append, Escape.removed_of_ne (ne_backslash_of_isFree h),
      Escape.removed_of_ne (ne_backslash_of_isFree h)]
    rfl
  nesting_append stack rest := by
    rw [Escape.removed_of_ne (ne_backslash_of_isFree h)]
    exact nesting_cons (step_of_isFree h stack) rest

theorem of_forall_isFree {text : List Char} (h : ∀ c ∈ text, isFree c = true) : Closed text := by
  induction text with
  | nil => exact nil
  | cons c rest ih =>
      rw [List.forall_mem_cons] at h
      exact (free h.1).append (ih h.2)

/-- A closed text between an opening bracket and the one that closes it. -/
theorem between {o c : Char} (h : closing? o = some c) {text : List Char} (htext : Closed text) :
    Closed (o :: (text ++ [c])) := by
  have hmarks : o ≠ '\\' ∧ c ≠ '\\' := by
    rcases (closing?_eq_some_iff o c).mp h with ⟨rfl, rfl⟩ | ⟨rfl, rfl⟩ <;> decide
  obtain ⟨ho, hc⟩ := hmarks
  have hremoved : ∀ rest, Escape.removed (o :: (text ++ c :: rest)) =
      o :: (Escape.removed text ++ c :: Escape.removed rest) := by
    intro rest
    rw [Escape.removed_of_ne ho, htext.removed_append, Escape.removed_of_ne hc]
  have hwhole := hremoved []
  refine ⟨fun rest => ?_, fun stack rest => ?_⟩
  · rw [hwhole, List.cons_append, List.append_assoc, List.singleton_append, hremoved]
    simp [Escape.removed]
  · rw [hwhole, List.cons_append, nesting_cons (step_opening h stack), List.append_assoc,
      htext.nesting_append, List.cons_append, nesting_cons (step_closing h stack)]
    rfl

end Closed

end Bracketing

/-! ## What is written for a bare string is closed -/

namespace Escape

open Bracketing

theorem isGuarded_of_mem_bound (ctx : Context) : ∀ d ∈ bound, isGuarded ctx d = true :=
  List.all_eq_true.mp (by cases ctx <;> decide)

theorem closed_unquotedChar (ctx : Context) (opening : Bool) (c : Char) (next : Option Char) :
    Closed (unquotedChar ctx opening c next) := by
  rcases unquotedChar_cases ctx opening c next with ⟨-, hc⟩ | ⟨-, -, hc⟩ | ⟨-, hplain, hc⟩
  · rw [hc]
    exact .escape 'n'
  · rw [hc]
    exact .escape c
  · rw [hc]
    -- a bracket or a backslash would be guarded, so it would not be written as it is
    refine .free ((isFree_iff c).mpr fun d hd => ?_)
    exact ne_of_isGuarded hplain (isGuarded_of_mem_bound ctx d hd)

theorem closed_unquotedChars (ctx : Context) (opening : Bool) (cs : List Char) :
    Closed (unquotedChars ctx opening cs) := by
  induction cs generalizing opening with
  | nil => exact .nil
  | cons c cs ih =>
      rw [unquotedChars_cons]
      exact (closed_unquotedChar ctx opening c cs.head?).append (ih false)

/-- The letters of the word `null` are free in upper and in lower case. -/
theorem isFree_of_isNull {s : String} (h : Text.isNull s = true) :
    ∀ c ∈ s.toList, isFree c = true := by
  intro c hc
  have hlower : c.toLower ∈ "null".toList := by
    rw [← (Text.isNull_iff s).mp h, Text.toList_toLower]
    exact List.mem_map_of_mem hc
  refine isFree_of_test (t := fun d => !("null".toList.contains d.toLower)) (by decide +kernel) ?_
  rw [Bool.not_eq_false', List.contains_iff_mem]
  exact hlower

theorem closed_unquoted (ctx : Context) (s : String) : Closed (unquoted ctx s).toList := by
  rw [unquoted]
  split
  · exact .of_forall_isFree (List.all_eq_true.mp (by decide +kernel))
  · split
    · rename_i hempty hnull
      have hfree := isFree_of_isNull hnull
      rw [String.toList_append]
      cases hs : s.toList with
      | nil => exact absurd (String.toList_eq_nil_iff.mp hs) (by simpa using hempty)
      | cons c rest =>
          rw [hs, List.forall_mem_cons] at hfree
          exact (Closed.escape c).append (.of_forall_isFree hfree.2)
    · rw [toList_unquotedPiece]
      exact closed_unquotedChars ctx true s.toList

end Escape

/-! ## Closed documents -/

namespace Doc

open Bracketing

/-- A document whose text is closed at every level and under every indentation. -/
def IsClosed (d : Doc) : Prop := ∀ i n, Closed (chars i n d)

theorem additive_isClosed : Additive IsClosed where
  nil i n := by
    rw [chars_nil]
    exact .nil
  append ha hb i n := by
    rw [chars_append]
    exact (ha i n).append (hb i n)

theorem isClosed_ofString {s : String} (h : Closed s.toList) : (ofString s).IsClosed := by
  intro i n
  rw [chars_ofString]
  exact h

theorem isClosed_of_all_isFree {s : String} (h : s.toList.all isFree = true) :
    (ofString s).IsClosed :=
  isClosed_ofString (.of_forall_isFree (List.all_eq_true.mp h))

theorem isClosed_hardLine : hardLine.IsClosed := by
  intro i n
  have hfree : ∀ c ∈ i.chars n, isFree c = true := i.forall_mem_chars n (by decide) (by decide)
  rw [chars, render_hardLine, String.toList_append, Indentation.toList_text]
  exact (Closed.free (c := '\n') (by decide)).append (.of_forall_isFree hfree)

theorem isClosed_bareLine : bareLine.IsClosed := by
  intro i n
  rw [chars, render_bareLine]
  exact .free (by decide)

theorem spacing_isClosed : Spacing IsClosed where
  space := isClosed_of_all_isFree (by decide +kernel)
  semicolon := isClosed_of_all_isFree (by decide +kernel)
  hardLine := isClosed_hardLine
  bareLine := isClosed_bareLine

theorem isClosed_nest {d : Doc} (h : d.IsClosed) : d.nest.IsClosed := by
  intro i n
  rw [chars, render_nest]
  exact h i (n + 1)

/-- A closed document between an opening bracket and the one that closes it. -/
theorem isClosed_between {o c : Char} (h : closing? o = some c) {opening closing : String}
    (hopening : opening.toList = [o]) (hclosing : closing.toList = [c]) {d : Doc}
    (hd : d.IsClosed) : (surround (ofString opening) d (ofString closing)).IsClosed := by
  intro i n
  rw [chars_surround, chars_ofString, chars_ofString, hopening, hclosing]
  exact .between h (hd i n)

end Doc

open Bracketing Doc

/-- The brackets are an opening one and the one that closes it. -/
structure Brackets.Match (b : Brackets) (o c : Char) : Prop where
  closing? : Bracketing.closing? o = some c
  opening : b.opening.toList = [o]
  closing : b.closing.toList = [c]
  padding : b.padding.toList.all isFree = true

theorem Brackets.match_braces : Brackets.braces.Match '\x7b' '\x7d' :=
  ⟨rfl, by decide +kernel, by decide +kernel, by decide +kernel⟩

theorem Brackets.match_square : Brackets.square.Match '[' ']' :=
  ⟨rfl, by decide +kernel, by decide +kernel, by decide +kernel⟩

/-- Closed documents between brackets are closed, in every layout. -/
theorem Brackets.isClosed_enclose {b : Brackets} {o c : Char} (hb : b.Match o c) (oneLine : Bool)
    {parts : List Doc} (hparts : ∀ d ∈ parts, d.IsClosed) : (b.enclose oneLine parts).IsClosed := by
  have hcontent : (concat parts).IsClosed := additive_isClosed.concat hparts
  have hpadding : (ofString b.padding).IsClosed := isClosed_of_all_isFree hb.padding
  have hbetween : ∀ {d : Doc}, d.IsClosed →
      (surround (ofString b.opening) d (ofString b.closing)).IsClosed :=
    isClosed_between hb.closing? hb.opening hb.closing
  rw [enclose]
  split
  · intro i n
    have hnothing := hbetween additive_isClosed.nil i n
    simpa using hnothing
  · split
    · intro i n
      have hpadded := hbetween
        (additive_isClosed.append (additive_isClosed.append hpadding hcontent) hpadding) i n
      simpa using hpadded
    · intro i n
      have hlines := hbetween
        (additive_isClosed.append (isClosed_nest hcontent) isClosed_hardLine) i n
      simpa using hlines

theorem ArrayLit.isClosed_docOf {span : Span} {es : List Entry} (h : ∀ e ∈ es, e.doc.IsClosed) :
    (docOf span es).IsClosed :=
  Brackets.isClosed_enclose Brackets.match_square _ (forall_mem_docs spacing_isClosed h)

theorem MapLit.isClosed_docOf {span : Span} {isFile : Bool} {es : List Entry}
    (h : ∀ e ∈ es, e.doc.IsClosed) : (docOf span isFile es).IsClosed := by
  have hparts : ∀ d ∈ (arrange isFile (isInline span isFile) es).flatMap Placed.docs, d.IsClosed :=
    forall_mem_docs spacing_isClosed h
  rw [docOf]
  split
  · rw [fileDoc]
    split
    · exact additive_isClosed.nil
    · exact additive_isClosed.append (additive_isClosed.concat hparts) isClosed_hardLine
  · exact Brackets.isClosed_enclose Brackets.match_braces _ hparts

/-- The dollar sign and the dots of a substitution are free, and its braces stand around
the path. -/
theorem Substitution.isClosed_toDoc {path : KeyPath} (h : path.toDoc.IsClosed) (spread : Bool)
    (span : Span) : (toDoc ⟨spread, path, span⟩).IsClosed := by
  intro i n
  have hbraces : Closed ('\x7b' :: (chars i n path.toDoc ++ ['\x7d'])) := .between rfl (h i n)
  have hdollar : Closed ('$' :: '\x7b' :: (chars i n path.toDoc ++ ['\x7d'])) :=
    (Closed.free (c := '$') (by decide)).append hbraces
  have hopening : "$\x7b".toList = ['$', '\x7b'] := by decide +kernel
  have hclosing : "\x7d".toList = ['\x7d'] := by decide +kernel
  rw [toDoc, chars_concat, List.flatMap_append]
  refine Closed.append ?_ ?_
  · cases spread
    · exact .nil
    · rw [if_pos rfl, List.flatMap_singleton, chars_ofString]
      exact .of_forall_isFree (List.all_eq_true.mp (by decide +kernel))
  · simpa [hopening, hclosing] using hdollar

/-- The index of an edge is a star or a number between square brackets. -/
theorem EdgeIndex.isClosed_toDoc (index : EdgeIndex) : index.toDoc.IsClosed := by
  rw [toDoc]
  split
  · refine isClosed_ofString ?_
    have hstar : Closed ['*'] := .free (by decide)
    have htext : "[*]".toList = '[' :: (['*'] ++ [']']) := by decide +kernel
    rw [htext]
    exact .between rfl hstar
  · rename_i number _
    refine isClosed_ofString ?_
    have hdigits : ∀ c ∈ (toString number).toList, isFree c = true := by
      intro c hc
      refine isFree_of_test (t := fun d => !d.isDigit) (by decide) ?_
      rw [isDigit_of_mem_toString hc]
      rfl
    have hopening : "[".toList = ['['] := by decide +kernel
    have hclosing : "]".toList = [']'] := by decide +kernel
    rw [String.toList_append, String.toList_append, hopening, hclosing, List.append_assoc]
    exact .between rfl (.of_forall_isFree hdigits)

/-! ## Trees of bare strings -/

/-- Whether a part can be relied on to leave the brackets alone.  Of the strings these are
the bare ones, whatever they say.  Numbers, directories and arrows are not escaped, so
their characters have to be free. -/
def Part.isBare : Part → Bool
  | .string (.unquoted _ _) => true
  | .string _ => false
  | .number raw => raw.toList.all isFree
  | .directory name => name.toList.all isFree
  | .arrow head => head.toList.all isFree
  | .comment _ => false
  | .array _ => true
  | .map _ _ => true

/-- An inert character is free. -/
theorem Bracketing.isFree_of_isInert {c : Char} (h : Text.isInert c = true) : isFree c = true := by
  refine isFree_of_test (t := fun d => !Text.isInert d) (by decide) ?_
  rw [h]
  rfl

/-- A tree of bare strings has a closed document. -/
theorem Part.ensures_isClosed : Part.Ensures (fun part => part.isBare = true) Doc.IsClosed where
  toAdditive := additive_isClosed
  plain h := isClosed_ofString
    (.of_forall_isFree fun c hc => isFree_of_isInert (List.all_eq_true.mp h c hc))
  unquoted ctx s := isClosed_ofString (Escape.closed_unquoted ctx s)
  unquotedPiece ctx opening s := by
    refine isClosed_ofString ?_
    rw [Escape.toList_unquotedPiece]
    exact Escape.closed_unquotedChars ctx opening s.toList
  doubleQuoted h := by simp [Part.isBare] at h
  singleQuoted h := by simp [Part.isBare] at h
  block h := by simp [Part.isBare] at h
  substitution spread span h := Substitution.isClosed_toDoc h spread span
  number h := isClosed_of_all_isFree h
  directory h := isClosed_of_all_isFree h
  arrow hsource htarget := isClosed_of_all_isFree <| List.all_eq_true.mpr <|
    Edge.forall_mem_arrow (by decide) (List.all_eq_true.mp hsource) (List.all_eq_true.mp htarget)
  edgeIndex := EdgeIndex.isClosed_toDoc
  comment h := by simp [Part.isBare] at h
  array _ := ArrayLit.isClosed_docOf
  map _ := MapLit.isClosed_docOf

/-- **The brackets in the text of a tree of bare strings are balanced**, whatever its
strings say, once the escapes are taken out.  The strings of its paths and
substitutions have to be bare too, and its numbers, directories and arrows free of
brackets and backslashes. -/
theorem Node.balanced_removed_format (i : Indentation) (node : Node)
    (h : ∀ part ∈ node.parts, part.isBare = true) :
    Balanced (Escape.removed (node.format i).toList) := by
  have hclosed : Closed (chars i 0 node.toDoc) := Part.ensures_isClosed.node node h i 0
  rw [Node.format_eq_render]
  exact hclosed.balanced

/-- A file whose texts would close every bracket of it and open others, if they were not
escaped: a key with an edge and its index, bound to an array with a substitution in it. -/
def Node.unruly : Node :=
  let path (name : String) : KeyPath := ⟨[.bare name], .unset⟩
  let mixed : StringLit :=
    .unquoted [.text "]\x7d\\", .substitution ⟨true, path "\x7b", .unset⟩, .text "["] .unset
  .value (.map (.file [
    .key ⟨none, some (path "a\x7d"), [], none, none, none, some (.map (.scope [
      .key ⟨none, none, [⟨some (path "x\\"), "<", some (path "[y"), "->", .unset⟩],
        some ⟨some 10, .unset⟩, some ⟨[mixed], .unset⟩, none,
        some (.array ⟨[.value (.scalar (.string mixed)), .value (.scalar (.number "1" .unset))],
          .unset⟩), .unset⟩])), .unset⟩]))

theorem Node.balanced_removed_format_unruly :
    Part.string (.bare "a\x7d") ∈ Node.unruly.parts ∧
      (∀ part ∈ Node.unruly.parts, part.isBare = true) ∧
      Balanced (Escape.removed (Node.unruly.format {}).toList) := by
  have hmem : Part.string (.bare "a\x7d") ∈ Node.unruly.parts := List.mem_of_getElem? (i := 1) rfl
  have hbare : ∀ part ∈ Node.unruly.parts, part.isBare = true :=
    List.all_eq_true.mp (by decide +kernel)
  exact ⟨hmem, hbare, Node.balanced_removed_format {} Node.unruly hbare⟩

end DiagramText
