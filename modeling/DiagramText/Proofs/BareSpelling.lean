import DiagramText.Proofs.Reading.Bare
import Mathlib.Data.List.Chain

/-!
# The spelling of bare strings

A bare text is spelled with backslashes, and whoever reads it has to know which characters
they belong to.  Read from left to right, a spelled text falls into *signs*: a backslash
together with the character behind it, or a character on its own.  This file says which
signs a bare text is spelled with, and draws two conclusions.

**A spelled text is safe and can be decoded** (`decoded_and_safe_unquotedPiece`).  Each
character of the text gives exactly one sign (`signs_unquotedChars_append`), so no backslash
is ever paired with a character of its neighbour, and the signs mean the characters that
they were written for (`map_meaning_unquotedSigns`).  A character that could be taken for
something else is never a sign on its own.

**Two texts are spelled alike only by one accident** (`unquoted_eq_unquoted_iff`).  The
spelling of a whole string has two rules of its own, for the empty text and for the word
`null`.  The empty text does no harm: it is spelled with two quotes, and no other spelling
starts with a quote.  The word `null` gets a backslash in front of it, and a backslash in
front of an `n` is also the spelling of a line feed.  So `null` is spelled like the text of a
line feed and `ull`, and that is the only such pair, up to the case of `ull`.
-/

namespace DiagramText
namespace Escape

/-! ## Signs -/

/-- A sign of a spelled text. -/
inductive Sign where
  /-- A character on its own. -/
  | plain (c : Char)
  /-- A backslash and the character behind it. -/
  | escaped (c : Char)
  deriving DecidableEq

/-- The character that a sign stands for. -/
def Sign.meaning : Sign → Char
  | plain c => c
  | escaped c => if c = 'n' then '\n' else c

/-- The signs of a text, from left to right. -/
def signs : List Char → List Sign
  | [] => []
  | '\\' :: c :: rest => .escaped c :: signs rest
  | c :: rest => .plain c :: signs rest

/-- What a spelled text stands for. -/
def decoded (text : List Char) : List Char := (signs text).map Sign.meaning

@[simp] theorem signs_nil : signs [] = [] := rfl

theorem signs_escape (c : Char) (rest : List Char) :
    signs ('\\' :: c :: rest) = .escaped c :: signs rest := by
  simp [signs]

theorem signs_of_ne {c : Char} (h : c ≠ '\\') (rest : List Char) :
    signs (c :: rest) = .plain c :: signs rest := by
  rw [signs]
  rintro d tail rfl
  exact absurd rfl h

/-! ## The signs of a bare text -/

/-- The sign for one character of a bare text. -/
def unquotedSign (ctx : Context) (opening : Bool) (c : Char) (next : Option Char) : Sign :=
  if c = '\n' then .escaped 'n'
  else if needsBackslash ctx opening c next then .escaped c
  else .plain c

/-- The signs for a bare text, one for each character. -/
def unquotedSigns (ctx : Context) : Bool → List Char → List Sign
  | _, [] => []
  | opening, c :: rest => unquotedSign ctx opening c rest.head? :: unquotedSigns ctx false rest

variable {ctx : Context} {opening : Bool} {c d : Char} {next : Option Char}

/-- The sign for a character is the letter `n` behind a backslash, the character behind a
backslash, or the character alone. -/
theorem unquotedSign_cases (ctx : Context) (opening : Bool) (c : Char) (next : Option Char) :
    (c = '\n' ∧ unquotedSign ctx opening c next = .escaped 'n') ∨
      (needsBackslash ctx opening c next = true ∧
        unquotedSign ctx opening c next = .escaped c) ∨
      (needsBackslash ctx opening c next = false ∧
        unquotedSign ctx opening c next = .plain c) := by
  unfold unquotedSign
  split
  · rename_i hnewline
    exact Or.inl ⟨hnewline, rfl⟩
  · split
    · rename_i hactive
      exact Or.inr (Or.inl ⟨hactive, rfl⟩)
    · rename_i hplain
      exact Or.inr (Or.inr ⟨Bool.eq_false_iff.mpr hplain, rfl⟩)

/-- What is written for a character is one sign, whatever follows. -/
theorem signs_unquotedChar_append (ctx : Context) (opening : Bool) (c : Char)
    (next : Option Char) (rest : List Char) :
    signs (unquotedChar ctx opening c next ++ rest) =
      unquotedSign ctx opening c next :: signs rest := by
  unfold unquotedChar unquotedSign
  split
  · exact signs_escape 'n' rest
  · split
    · exact signs_escape c rest
    · rename_i hplain
      have hbackslash : c ≠ '\\' :=
        ne_of_isGuarded (Bool.eq_false_iff.mpr hplain) (by cases ctx <;> rfl)
      exact signs_of_ne hbackslash rest

/-- What is written for a text are its signs, whatever follows. -/
theorem signs_unquotedChars_append (ctx : Context) (opening : Bool) (cs rest : List Char) :
    signs (unquotedChars ctx opening cs ++ rest) =
      unquotedSigns ctx opening cs ++ signs rest := by
  induction cs generalizing opening with
  | nil => rfl
  | cons c cs ih =>
      rw [unquotedChars_cons, List.append_assoc, signs_unquotedChar_append, ih]
      rfl

theorem signs_unquotedChars (ctx : Context) (opening : Bool) (cs : List Char) :
    signs (unquotedChars ctx opening cs) = unquotedSigns ctx opening cs := by
  simpa using signs_unquotedChars_append ctx opening cs []

/-- The sign for a character means that character. -/
theorem meaning_unquotedSign (ctx : Context) (opening : Bool) (c : Char) (next : Option Char) :
    (unquotedSign ctx opening c next).meaning = c := by
  rcases unquotedSign_cases ctx opening c next with
    ⟨hnewline, hc⟩ | ⟨hactive, hc⟩ | ⟨-, hc⟩
  · rw [hc, hnewline]
    rfl
  · rw [hc, Sign.meaning, if_neg (ne_n_of_needsBackslash hactive)]
  · rw [hc, Sign.meaning]

theorem map_meaning_unquotedSigns (ctx : Context) (opening : Bool) (cs : List Char) :
    (unquotedSigns ctx opening cs).map Sign.meaning = cs := by
  induction cs generalizing opening with
  | nil => rfl
  | cons c cs ih => rw [unquotedSigns, List.map_cons, meaning_unquotedSign, ih]

/-- Decoding undoes the spelling of a text, and leaves what follows it to be decoded on
its own. -/
theorem decoded_unquotedChars_append (ctx : Context) (opening : Bool) (cs rest : List Char) :
    decoded (unquotedChars ctx opening cs ++ rest) = cs ++ decoded rest := by
  rw [decoded, signs_unquotedChars_append, List.map_append, map_meaning_unquotedSigns, decoded]

theorem decoded_unquotedChars (ctx : Context) (opening : Bool) (cs : List Char) :
    decoded (unquotedChars ctx opening cs) = cs := by
  rw [decoded, signs_unquotedChars, map_meaning_unquotedSigns]

/-! ## Safety -/

/-- The characters that would end a bare string or change its meaning wherever they
stand. -/
def forbidden : Context → List Char
  | .key =>
      ['\n', '\\', '#', ';', '\x7b', '\x7d', '[', ']', '@', ':', '.', '<', '>', '*', '(', ')']
  | .value => ['\n', '\\', '#', ';', '\x7b', '\x7d', '[', ']', '@', '$']

/-- The characters that would open something else at the start of a bare string: a string
of another kind, or in a key also a marker. -/
def openers : Context → List Char
  | .key => ['"', '\x27', '|', '&']
  | .value => ['"', '\x27', '|']

/-- A spelled text that is not taken for anything but a bare string. -/
structure Safe (ctx : Context) (opening : Bool) (text : List Char) : Prop where
  /-- No character that is forbidden stands on its own. -/
  no_forbidden : ∀ d ∈ forbidden ctx, .plain d ∉ signs text
  /-- In a key no hyphen that stands on its own has another hyphen behind it, so there is
  no arrow. -/
  no_arrow : ctx = .key → (signs text).IsChain fun sign next =>
    sign = .plain '-' → next ≠ .plain '-' ∧ next ≠ .escaped '-'
  /-- At the start of a string nothing else is opened. -/
  no_opener : opening = true → ∀ d ∈ openers ctx, text.head? ≠ some d

theorem isGuarded_of_mem_forbidden (h : d ∈ forbidden ctx) : isGuarded ctx d = true := by
  have hall : (forbidden ctx).all (isGuarded ctx) = true := by cases ctx <;> decide
  exact List.all_eq_true.mp hall d h

theorem needsBackslash_of_mem_openers (h : d ∈ openers ctx) (next : Option Char) :
    needsBackslash ctx true d next = true := by
  cases ctx with
  | key =>
      simp only [openers, List.mem_cons, List.not_mem_nil, or_false] at h
      rcases h with rfl | rfl | rfl | rfl <;> rfl
  | value =>
      simp only [openers, List.mem_cons, List.not_mem_nil, or_false] at h
      rcases h with rfl | rfl | rfl <;> rfl

/-- A guarded character is never a sign on its own. -/
theorem plain_notMem_unquotedSigns (hd : isGuarded ctx d = true) (opening : Bool)
    (cs : List Char) : .plain d ∉ unquotedSigns ctx opening cs := by
  induction cs generalizing opening with
  | nil => exact List.not_mem_nil
  | cons c cs ih =>
      rw [unquotedSigns, List.mem_cons, not_or]
      refine ⟨?_, ih false⟩
      rcases unquotedSign_cases ctx opening c cs.head? with
        ⟨-, hc⟩ | ⟨-, hc⟩ | ⟨hplain, hc⟩
      · rw [hc]
        exact Sign.noConfusion
      · rw [hc]
        exact Sign.noConfusion
      · rw [hc, Sign.plain.injEq]
        exact (ne_of_isGuarded hplain hd).symm

/-- A sign that shows a hyphen, with a backslash or without, is the sign for a hyphen. -/
theorem eq_hyphen_of_unquotedSign
    (h : unquotedSign ctx opening c next = .plain '-' ∨
      unquotedSign ctx opening c next = .escaped '-') : c = '-' := by
  rcases unquotedSign_cases ctx opening c next with ⟨-, hc⟩ | ⟨-, hc⟩ | ⟨-, hc⟩
  · rw [hc] at h
    exact absurd h (by decide)
  · simpa [hc] using h
  · simpa [hc] using h

/-- In a key a hyphen in front of a hyphen takes a backslash. -/
theorem unquotedSign_hyphen_ne (opening : Bool) :
    unquotedSign .key opening '-' (some '-') ≠ .plain '-' := by
  cases opening <;> decide

/-- No hyphen of a key stands on its own in front of another one. -/
theorem isChain_unquotedSigns (opening : Bool) (cs : List Char) :
    (unquotedSigns .key opening cs).IsChain fun sign next =>
      sign = .plain '-' → next ≠ .plain '-' ∧ next ≠ .escaped '-' := by
  induction cs generalizing opening with
  | nil => exact List.IsChain.nil
  | cons c cs ih =>
      rw [unquotedSigns, List.isChain_cons]
      refine ⟨?_, ih false⟩
      cases cs with
      | nil => simp [unquotedSigns]
      | cons d cs =>
          intro next hnext hsign
          rw [unquotedSigns, List.head?_cons, Option.mem_some_iff] at hnext
          subst hnext
          rw [← not_or]
          intro hhyphen
          obtain rfl := eq_hyphen_of_unquotedSign hhyphen
          obtain rfl := eq_hyphen_of_unquotedSign (Or.inl hsign)
          exact unquotedSign_hyphen_ne opening hsign

/-- What is written at the start of a string does not start with an opener. -/
theorem head?_unquotedChars_ne_of_mem_openers (hd : d ∈ openers ctx) (cs : List Char) :
    (unquotedChars ctx true cs).head? ≠ some d := by
  cases cs with
  | nil => simp
  | cons c cs =>
      have hbackslash : d ≠ '\\' := by
        rintro rfl
        cases ctx <;> exact absurd hd (by decide)
      exact head?_unquotedChar_append_ne (needsBackslash_of_mem_openers hd _) hbackslash c _

/-- **A spelled text can be decoded and is safe.**  Decoding the spelling of a text gives
the text back, in each context and at each place of a string, and the spelling is not
taken for anything else. -/
theorem decoded_and_safe_unquotedPiece (ctx : Context) (opening : Bool) (s : String) :
    decoded (unquotedPiece ctx opening s).toList = s.toList ∧
      Safe ctx opening (unquotedPiece ctx opening s).toList := by
  rw [toList_unquotedPiece]
  refine ⟨decoded_unquotedChars ctx opening s.toList, ?_, ?_, ?_⟩
  · intro d hd
    rw [signs_unquotedChars]
    exact plain_notMem_unquotedSigns (isGuarded_of_mem_forbidden hd) opening s.toList
  · rintro rfl
    rw [signs_unquotedChars]
    exact isChain_unquotedSigns opening s.toList
  · rintro rfl d hd
    exact head?_unquotedChars_ne_of_mem_openers hd s.toList

/-! ## Texts that need no backslash -/

/-- Only characters of the table take a backslash. -/
theorem isSpecial_of_needsBackslash (h : needsBackslash ctx opening c next = true) :
    ctx.isSpecial c = true := by
  cases hopener : isOpener c with
  | true =>
      simp only [isOpener, Bool.or_eq_true, beq_iff_eq] at hopener
      rcases hopener with (rfl | rfl) | rfl <;> cases ctx <;> rfl
  | false =>
      rw [needsBackslash_of_not_isOpener hopener] at h
      exact Context.isSpecial_of_isActive h

/-- A text without characters of the table is spelled as it is. -/
theorem unquotedChars_of_not_isSpecial {cs : List Char} (h : ∀ c ∈ cs, ctx.isSpecial c = false)
    (opening : Bool) : unquotedChars ctx opening cs = cs := by
  induction cs generalizing opening with
  | nil => rfl
  | cons c cs ih =>
      rw [List.forall_mem_cons] at h
      rcases unquotedChar_cases ctx opening c cs.head? with
        ⟨hnewline, -⟩ | ⟨-, hactive, -⟩ | ⟨-, -, hc⟩
      · subst hnewline
        exact absurd h.1 (by cases ctx <;> decide)
      · rw [isSpecial_of_needsBackslash hactive] at h
        exact absurd h.1 (by decide)
      · rw [unquotedChars_cons, hc, ih h.2, List.singleton_append]

/-- The letters of the word `null` are not in the table, in upper or in lower case. -/
theorem not_isSpecial_of_isNull {s : String} (h : Text.isNull s = true) :
    ∀ c ∈ s.toList, ctx.isSpecial c = false := by
  intro c hc
  have hlower : c.toLower ∈ "null".toList := by
    rw [← (Text.isNull_iff s).mp h, Text.toList_toLower]
    exact List.mem_map_of_mem hc
  have hspecials : ctx.specials.all (fun d => !"null".toList.contains d.toLower) = true := by
    cases ctx <;> decide +kernel
  rw [Context.isSpecial, List.contains_eq_mem, decide_eq_false_iff_not]
  intro hspecial
  have hother := List.all_eq_true.mp hspecials c hspecial
  rw [Bool.not_eq_true', List.contains_eq_mem, decide_eq_false_iff_not] at hother
  exact hother hlower

/-! ## Whole strings -/

/-- The empty text is spelled with two quotes. -/
theorem toList_unquoted_empty (ctx : Context) : (unquoted ctx "").toList = ['"', '"'] := by
  rw [unquoted, if_pos (by decide)]
  decide

/-- The word `null` is spelled with a backslash in front. -/
theorem toList_unquoted_of_isNull {s : String} (h : Text.isNull s = true) :
    (unquoted ctx s).toList = '\\' :: s.toList := by
  have hne : s.isEmpty = false := by
    rw [String.isEmpty_eq_false_iff]
    rintro rfl
    exact absurd h (by decide +kernel)
  rw [unquoted, hne, if_neg Bool.false_ne_true, if_pos h, String.toList_append]
  rfl

/-- Only the empty text is spelled with an opener at the start. -/
theorem head?_unquoted_ne_of_mem_openers {s : String} (h : s ≠ "") (hd : d ∈ openers ctx) :
    (unquoted ctx s).toList.head? ≠ some d := by
  cases hnull : Text.isNull s with
  | true =>
      rw [toList_unquoted_of_isNull hnull, List.head?_cons]
      intro hbackslash
      rw [← Option.some.inj hbackslash] at hd
      cases ctx <;> exact absurd hd (by decide)
  | false =>
      rw [toList_unquoted h hnull]
      exact head?_unquotedChars_ne_of_mem_openers hd s.toList

theorem unquoted_eq_unquoted_empty_iff (ctx : Context) (s : String) :
    unquoted ctx s = unquoted ctx "" ↔ s = "" := by
  constructor
  · intro h
    by_contra hne
    have hquote : '"' ∈ openers ctx := by cases ctx <;> decide
    exact head?_unquoted_ne_of_mem_openers hne hquote
      (by rw [h, toList_unquoted_empty, List.head?_cons])
  · rintro rfl
    rfl

/-- The word `null` with a small `n`, and the text that has a line feed in place of the
`n`. -/
def NullTwins (s t : String) : Prop :=
  ∃ rest, Text.isNull ("n" ++ rest) = true ∧ s = "n" ++ rest ∧ t = "\n" ++ rest

/-- A text whose first character is not an `n` in either case is not the word `null`. -/
theorem not_isNull_of_head? {s : String} (h : s.toList.head? = some c) (hc : c.toLower ≠ 'n') :
    Text.isNull s = false := by
  rw [Bool.eq_false_iff, ne_eq, Text.isNull_iff]
  intro heq
  have hhead := congrArg (fun text => text.toList.head?) heq
  simp only [Text.toList_toLower, List.head?_map, h, Option.map_some] at hhead
  exact hc (Option.some.inj hhead)

/-- The second of the two is not the word `null`. -/
theorem NullTwins.not_isNull {s t : String} (h : NullTwins s t) : Text.isNull t = false := by
  obtain ⟨rest, -, -, rfl⟩ := h
  exact not_isNull_of_head? (by rw [String.toList_append]; rfl) (by decide)

/-- The two are spelled alike. -/
theorem unquoted_eq_of_nullTwins {s t : String} (h : NullTwins s t) :
    unquoted ctx s = unquoted ctx t := by
  have hother := h.not_isNull
  obtain ⟨rest, hnull, rfl, rfl⟩ := h
  have hrest : ∀ c ∈ rest.toList, ctx.isSpecial c = false := fun c hc =>
    not_isSpecial_of_isNull hnull c (by simp [hc])
  apply String.toList_injective
  rw [toList_unquoted_of_isNull hnull, toList_unquoted (by simp) hother, String.toList_append,
    String.toList_append]
  show '\\' :: 'n' :: rest.toList = '\\' :: 'n' :: unquotedChars ctx false rest.toList
  rw [unquotedChars_of_not_isSpecial hrest]

/-- What the spelling of the word `null` is decoded to: the backslash is taken to belong to
the first letter. -/
theorem decoded_of_isNull {c : Char} {rest : List Char}
    (h : Text.isNull (String.ofList (c :: rest)) = true) :
    decoded ('\\' :: c :: rest) = (if c = 'n' then '\n' else c) :: rest := by
  have hrest : ∀ d ∈ rest, Context.isSpecial .key d = false := fun d hd =>
    not_isSpecial_of_isNull h d (by simp [hd])
  have hdecoded : decoded rest = rest := by
    have hspelled := decoded_unquotedChars .key false rest
    rwa [unquotedChars_of_not_isSpecial hrest] at hspelled
  rw [decoded, signs_escape, List.map_cons, ← decoded, hdecoded, Sign.meaning]

/-- A text that is spelled like the word `null`, but is not that word, has a line feed in
place of a small `n`. -/
theorem nullTwins_of_unquoted_eq {s t : String} (hs : Text.isNull s = true)
    (ht : Text.isNull t = false) (h : unquoted ctx s = unquoted ctx t) : NullTwins s t := by
  have hne : t ≠ "" := by
    rintro rfl
    rw [unquoted_eq_unquoted_empty_iff] at h
    subst h
    exact absurd hs (by decide +kernel)
  have hchars : '\\' :: s.toList = unquotedChars ctx true t.toList := by
    rw [← toList_unquoted_of_isNull hs, h, toList_unquoted hne ht]
  obtain ⟨cs, rfl⟩ : ∃ cs, s = String.ofList cs := ⟨s.toList, String.ofList_toList.symm⟩
  cases cs with
  | nil => exact absurd hs (by decide +kernel)
  | cons c rest =>
      -- decoding both sides gives the text with the letter that its backslash makes of `c`
      have hdecoded := decoded_unquotedChars ctx true t.toList
      rw [← hchars, String.toList_ofList, decoded_of_isNull hs] at hdecoded
      by_cases hc : c = 'n'
      · subst hc
        refine ⟨String.ofList rest, ?_, ?_, ?_⟩
        · rwa [String.ofList_cons] at hs
        · rw [String.ofList_cons]
          rfl
        · apply String.toList_injective
          rw [← hdecoded, if_pos rfl]
          simp
      · rw [if_neg hc] at hdecoded
        rw [hdecoded, String.ofList_toList, ht] at hs
        exact absurd hs (by decide)

/-- Texts that are both the word `null`, or are both not, are spelled differently. -/
theorem eq_of_unquoted_eq {s t : String} (hrule : Text.isNull s = Text.isNull t)
    (h : unquoted ctx s = unquoted ctx t) : s = t := by
  by_cases hs : s = ""
  · subst hs
    exact ((unquoted_eq_unquoted_empty_iff ctx t).mp h.symm).symm
  by_cases ht : t = ""
  · subst ht
    exact (unquoted_eq_unquoted_empty_iff ctx s).mp h
  cases hnull : Text.isNull s with
  | true =>
      have hchars := congrArg String.toList h
      rw [toList_unquoted_of_isNull hnull, toList_unquoted_of_isNull (hrule ▸ hnull)] at hchars
      exact String.toList_injective (List.tail_eq_of_cons_eq hchars)
  | false =>
      apply String.toList_injective
      rw [← decoded_unquotedChars ctx true s.toList, ← toList_unquoted hs hnull, h,
        toList_unquoted ht (hrule ▸ hnull), decoded_unquotedChars]

/-- **Two texts are spelled alike only if they are the same**, or if one is the word `null`
and the other has a line feed in place of its `n`. -/
theorem unquoted_eq_unquoted_iff (ctx : Context) (s t : String) :
    unquoted ctx s = unquoted ctx t ↔ s = t ∨ NullTwins s t ∨ NullTwins t s := by
  constructor
  · intro h
    cases hs : Text.isNull s with
    | true =>
        cases ht : Text.isNull t with
        | true => exact Or.inl (eq_of_unquoted_eq (hs.trans ht.symm) h)
        | false => exact Or.inr (Or.inl (nullTwins_of_unquoted_eq hs ht h))
    | false =>
        cases ht : Text.isNull t with
        | true => exact Or.inr (Or.inr (nullTwins_of_unquoted_eq ht hs h.symm))
        | false => exact Or.inl (eq_of_unquoted_eq (hs.trans ht.symm) h)
  · rintro (rfl | h | h)
    · rfl
    · exact unquoted_eq_of_nullTwins h
    · exact (unquoted_eq_of_nullTwins h).symm

example : unquoted .value "null" = unquoted .value "\null" := by decide +kernel

end Escape
end DiagramText
