import DiagramText.Proofs.BareSpelling
import DiagramText.Proofs.KeyText

/-!
# Markers and names

The marker of a key, `&` or `!&`, is printed in front of its path and has nothing around it that
would tell it from the path.  What keeps the two apart is the spelling of the first segment.  An
ampersand at the start of a key takes a backslash, so no name is printed with the marker `&`
(`Escape.head?_unquoted_ne_ampersand`).

**The marker `!&` can be forged.**  Only the first character of a name is looked at, and the
ampersand of `!&` is the second one.  The name `!&a` is spelled `!&a`, which is also the text of
the name `a` with that marker.  There is no other way (`Key.format_eq_iff_of_isNamed`): two keys
that are a marker and a path have the same text if they have the same marker and path texts, or
if the one without a marker has a name that starts with `!&` and goes on with the spelling of the
other.

## Inside and on its own

The rest of a forged name stands inside a string, and the name that it imitates is a string of its
own.  The two places have different rules, for openers at the start, for the empty text and for
the word `null`.  `Escape.SpelledInside` lists what comes of that: the two texts are the same, or
the name is empty and the rest a pair of quotes, or they differ in the `n` of `null`.
-/

namespace DiagramText

namespace Keyword

/-- No reserved word starts with an exclamation mark. -/
theorem not_isReserved_negated (rest : String) : isReserved ("!&" ++ rest) = false := by
  have hwords : reserved.all (fun word => word.toList.head? != some '!') = true := by
    decide +kernel
  rw [← Bool.not_eq_true, isReserved_iff]
  intro hword
  have hhead := List.all_eq_true.mp hwords _ hword
  rw [Text.toList_toLower, String.toList_append, List.map_append] at hhead
  exact absurd rfl (bne_iff_ne.mp hhead)

theorem canonical_eq_negated_iff (s rest : String) :
    canonical s = "!&" ++ rest ↔ s = "!&" ++ rest := by
  constructor
  · intro h
    cases hs : isReserved s with
    | false => rwa [canonical_of_not_isReserved hs] at h
    | true =>
        have hother := not_isReserved_negated rest
        rw [← h, canonical_of_isReserved hs, isReserved_toLower, hs] at hother
        exact absurd hother (by decide)
  · rintro rfl
    exact canonical_of_not_isReserved (not_isReserved_negated rest)

end Keyword

/-! ## Inside a string and on its own -/

namespace Escape

variable {ctx : Context} {c d : Char} {cs : List Char}

/-- Openers matter at the start of a string only. -/
theorem unquotedChar_of_mem_openers (h : d ∈ openers .key) (next : Option Char) :
    unquotedChar .key false d next = [d] := by
  simp only [openers, List.mem_cons, List.not_mem_nil, or_false] at h
  rcases h with rfl | rfl | rfl | rfl <;> rfl

/-- Everything but the openers is written inside a string as at its start. -/
theorem needsBackslash_of_notMem_openers (h : c ∉ openers .key) (opening : Bool)
    (next : Option Char) :
    needsBackslash .key opening c next = needsBackslash .key true c next := by
  simp only [openers, List.mem_cons, List.not_mem_nil, or_false, not_or] at h
  obtain ⟨hdouble, hsingle, hpipe, hampersand⟩ := h
  have hopener : isOpener c = false := by simp [isOpener, hdouble, hsingle, hpipe]
  rw [needsBackslash_of_not_isOpener hopener, needsBackslash_of_not_isOpener hopener]
  by_cases hhyphen : c = '-'
  · rw [hhyphen, Context.isActive_key_hyphen, Context.isActive_key_hyphen]
  · rw [Context.isActive_key_of_ne hhyphen hampersand,
      Context.isActive_key_of_ne hhyphen hampersand]

/-- A text is written inside a string as at its start, if it does not start with an opener. -/
theorem unquotedChars_inside (h : ∀ d ∈ openers .key, cs.head? ≠ some d) :
    unquotedChars .key false cs = unquotedChars .key true cs := by
  cases cs with
  | nil => rfl
  | cons c cs =>
      have hc : c ∉ openers .key := fun hmem => h c hmem rfl
      rw [unquotedChars_cons, unquotedChars_cons, unquotedChar, unquotedChar,
        needsBackslash_of_notMem_openers hc false]

/-- A text that is written inside a string without an opener at the start has none. -/
theorem head?_ne_of_head?_unquotedChars_ne (hd : d ∈ openers .key)
    (h : (unquotedChars .key false cs).head? ≠ some d) : cs.head? ≠ some d := by
  intro hhead
  obtain ⟨rest, rfl⟩ := List.head?_eq_some_iff.mp hhead
  rw [unquotedChars_cons, unquotedChar_of_mem_openers hd] at h
  exact h rfl

/-- **No string of a key is spelled with an ampersand at the start.** -/
theorem head?_unquoted_ne_ampersand (s : String) :
    (unquoted .key s).toList.head? ≠ some '&' := by
  by_cases hs : s = ""
  · rw [hs, toList_unquoted_empty]
    decide
  · exact head?_unquoted_ne_of_mem_openers hs (by decide)

/-- The first text, inside a bare string of a key, has the spelling of the second as a string of
its own. -/
inductive SpelledInside : String → String → Prop
  /-- The empty string is spelled with two quotes, which are harmless inside a string. -/
  | quotes : SpelledInside "\"\"" ""
  /-- The word `null` is spelled with a backslash, and so is a line feed. -/
  | lineFeed {inside whole : String} (twins : NullTwins whole inside) :
      SpelledInside inside whole
  /-- Other texts are spelled alike in both places, if they have no opener at the start. -/
  | same {s : String} (nonempty : s ≠ "") (notNull : Text.isNull s = false)
      (noOpener : ∀ d ∈ openers .key, s.toList.head? ≠ some d) : SpelledInside s s

/-- What is spelled inside a string like the word `null` on its own is not that word. -/
theorem not_isNull_of_unquotedChars_eq {inside whole : String} (hwhole : Text.isNull whole = true)
    (h : unquotedChars ctx false inside.toList = (unquoted ctx whole).toList) :
    Text.isNull inside = false := by
  rw [← Bool.not_eq_true]
  intro hinside
  rw [unquotedChars_of_not_isSpecial (not_isSpecial_of_isNull hinside),
    toList_unquoted_of_isNull hwhole] at h
  have hspecial : ctx.isSpecial '\\' = false :=
    not_isSpecial_of_isNull hinside '\\' (by rw [h]; exact List.mem_cons_self)
  exact absurd hspecial (by cases ctx <;> decide)

theorem spelledInside_of_unquotedChars_eq {inside whole : String}
    (h : unquotedChars .key false inside.toList = (unquoted .key whole).toList) :
    SpelledInside inside whole := by
  by_cases hwhole : whole = ""
  · subst hwhole
    have hdecoded := decoded_unquotedChars .key false inside.toList
    rw [h, toList_unquoted_empty] at hdecoded
    obtain rfl : "\"\"" = inside := String.toList_injective hdecoded
    exact .quotes
  have hopeners : ∀ d ∈ openers .key, inside.toList.head? ≠ some d := fun d hd =>
    head?_ne_of_head?_unquotedChars_ne hd (h ▸ head?_unquoted_ne_of_mem_openers hwhole hd)
  cases hnull : Text.isNull whole with
  | true =>
      have hinside := not_isNull_of_unquotedChars_eq hnull h
      have hne : inside ≠ "" := by
        rintro rfl
        exact unquoted_ne_empty .key whole (String.toList_eq_nil_iff.mp h.symm)
      have hspelling : unquoted .key whole = unquoted .key inside := by
        apply String.toList_injective
        rw [toList_unquoted hne hinside, ← unquotedChars_inside hopeners, h]
      exact .lineFeed (nullTwins_of_unquoted_eq hnull hinside hspelling)
  | false =>
      have hdecoded := decoded_unquotedChars .key false inside.toList
      rw [h, toList_unquoted hwhole hnull, decoded_unquotedChars] at hdecoded
      obtain rfl : whole = inside := String.toList_injective hdecoded
      exact .same hwhole hnull hopeners

/-- `SpelledInside` says what its name says. -/
theorem unquotedChars_eq_unquoted_iff (inside whole : String) :
    unquotedChars .key false inside.toList = (unquoted .key whole).toList ↔
      SpelledInside inside whole := by
  refine ⟨spelledInside_of_unquotedChars_eq, fun h => ?_⟩
  cases h with
  | quotes => decide
  | lineFeed twins =>
      have hnull := twins.not_isNull
      rw [unquoted_eq_of_nullTwins twins]
      obtain ⟨rest, -, -, rfl⟩ := twins
      rw [toList_unquoted (by simp) hnull, String.toList_append]
      rfl
  | same nonempty notNull noOpener =>
      rw [toList_unquoted nonempty notNull, unquotedChars_inside noOpener]

/-- A name that starts with `!&` is spelled with it, and its rest stands inside the string. -/
theorem toList_unquoted_negated (rest : String) :
    (unquoted .key ("!&" ++ rest)).toList =
      '!' :: '&' :: unquotedChars .key false rest.toList := by
  have hne : "!&" ++ rest ≠ "" := by simp
  have hnull : Text.isNull ("!&" ++ rest) = false :=
    not_isNull_of_head? (by rw [String.toList_append]; rfl) (by decide)
  rw [toList_unquoted hne hnull, String.toList_append]
  rfl

end Escape

/-! ## Where a name ends -/

namespace Reading

variable {rest rest' : List Char}

/-- The reader finds the end of a string, whatever rule it is spelled by. -/
theorem bare_unquoted_append_snd (s : String) (hrest : endsBare .key rest = true) :
    (bare (endsBare .key) ((Escape.unquoted .key s).toList ++ rest)).2 = rest := by
  by_cases hs : s = ""
  · have hquotes : (Escape.unquoted .key s).toList =
        Escape.unquotedChars .key false ['"', '"'] := by
      rw [hs, Escape.toList_unquoted_empty]
      decide
    rw [hquotes, bare_unquotedChars_append false _ hrest]
  cases hnull : Text.isNull s with
  | true =>
      have hplain := @Escape.not_isSpecial_of_isNull .key s hnull
      rw [Escape.toList_unquoted_of_isNull hnull]
      cases hchars : s.toList with
      | nil => exact absurd (String.toList_eq_nil_iff.mp hchars) hs
      | cons c cs =>
          -- the backslash takes the first letter, and the others are read as they are
          rw [hchars, List.forall_mem_cons] at hplain
          rw [← Escape.unquotedChars_of_not_isSpecial hplain.2 false, List.cons_append,
            List.cons_append, bare_escape, bare_unquotedChars_append false cs hrest]
          rfl
  | false => rw [Escape.toList_unquoted hs hnull, bare_unquotedChars_append true _ hrest]

/-- A text inside a string and a string of its own can be compared without what follows. -/
theorem unquotedChars_append_eq_iff (inside whole : String) (hrest : endsBare .key rest = true)
    (hrest' : endsBare .key rest' = true) :
    Escape.unquotedChars .key false inside.toList ++ rest =
        (Escape.unquoted .key whole).toList ++ rest' ↔
      Escape.SpelledInside inside whole ∧ rest = rest' := by
  rw [← Escape.unquotedChars_eq_unquoted_iff]
  constructor
  · intro h
    have hread := congrArg (fun text => (bare (endsBare .key) text).2) h
    simp only [bare_unquotedChars_append false _ hrest, bare_unquoted_append_snd whole hrest']
      at hread
    subst hread
    exact ⟨List.append_cancel_right h, rfl⟩
  · rintro ⟨h, rfl⟩
    rw [h]

/-- A name is spelled with `!&` at the start only if it starts so. -/
theorem unquoted_append_eq_negated_iff (s : String) (hrest : endsBare .key rest = true)
    (text : List Char) :
    (Escape.unquoted .key s).toList ++ rest = '!' :: '&' :: text ↔
      ∃ inside, s = "!&" ++ inside ∧
        Escape.unquotedChars .key false inside.toList ++ rest = text := by
  constructor
  · intro h
    have hne : s ≠ "" := by
      rintro rfl
      rw [Escape.toList_unquoted_empty] at h
      exact absurd (List.head_eq_of_cons_eq h) (by decide)
    have hnull : Text.isNull s = false := by
      rw [← Bool.not_eq_true]
      intro hnull
      rw [Escape.toList_unquoted_of_isNull hnull] at h
      exact absurd (List.head_eq_of_cons_eq h) (by decide)
    have hread := bare_unquotedChars_append true s.toList hrest
    rw [← Escape.toList_unquoted hne hnull, h, bare_of_ne (by decide), bare_of_ne (by decide),
      show endsBare .key ('!' :: '&' :: text) = false from rfl,
      show endsBare .key ('&' :: text) = false from rfl, if_neg Bool.false_ne_true,
      if_neg Bool.false_ne_true] at hread
    obtain rfl : "!&" ++ String.ofList (bare (endsBare .key) text).1 = s := by
      apply String.toList_injective
      simp only [String.toList_append, String.toList_ofList]
      exact congrArg Prod.fst hread
    refine ⟨_, rfl, ?_⟩
    rw [Escape.toList_unquoted_negated] at h
    exact List.tail_eq_of_cons_eq (List.tail_eq_of_cons_eq h)
  · rintro ⟨inside, rfl, rfl⟩
    rw [Escape.toList_unquoted_negated]
    rfl

end Reading

/-- What follows the first segment of a path starts with a dot, so the segment ends there. -/
theorem KeyPath.endsBare_furtherChars (i : Indentation) (n : Nat) (path : KeyPath) :
    Reading.endsBare .key (path.furtherChars i n) = true := by
  rw [furtherChars]
  cases path.segments.tail with
  | nil => rfl
  | cons segment others => rfl

/-! ## Keys that are a marker and a path -/

/-- Markers in front of texts that do not start with an ampersand: the texts are equal if both
parts are, or if the text without a marker starts with `!&` itself. -/
theorem Marker.append_eq_append_iff {a b : List Char} (ha : a.head? ≠ some '&')
    (hb : b.head? ≠ some '&') (m m' : Option Marker) :
    (m.toList.flatMap fun marker => marker.text.toList) ++ a =
        (m'.toList.flatMap fun marker => marker.text.toList) ++ b ↔
      (m = m' ∧ a = b) ∨
        (m = none ∧ m' = some .negatedFilter ∧ a = '!' :: '&' :: b) ∨
        (m = some .negatedFilter ∧ m' = none ∧ b = '!' :: '&' :: a) := by
  have hfront : ∀ {text rest : List Char}, text.head? ≠ some '&' → text ≠ '&' :: rest := by
    rintro text rest hhead rfl
    exact hhead rfl
  rcases m with _ | _ | _ <;> rcases m' with _ | _ | _ <;>
    simp [text, hfront ha, (hfront hb).symm, eq_comm]

namespace Key

/-- A key that is a marker, possibly none, and a path whose first segment is a bare text. -/
structure IsNamed (k : Key) (path : KeyPath) (name : String) : Prop where
  path_eq : k.path = some path
  first_eq : ∃ span, path.segments.head? = some (.unquoted [.text name] span)
  edges_eq : k.edges = []
  edgeIndex_eq : k.edgeIndex = none
  edgePath_eq : k.edgePath = none
  primary_eq : k.primary = none
  value_eq : k.value = none

/-- The first path, without a marker, has the text of the second with the marker `!&`. -/
structure Forges (i : Indentation) (path : KeyPath) (name : String) (path' : KeyPath)
    (name' : String) : Prop where
  /-- The name has the marker in it, and goes on like the other name. -/
  name_eq : ∃ rest, name = "!&" ++ rest ∧ Escape.SpelledInside rest (Keyword.canonical name')
  /-- The further segments have the same texts. -/
  further_eq : path.furtherChars i 0 = path'.furtherChars i 0

variable {i : Indentation} {k k' : Key} {path path' : KeyPath} {name name' : String}

theorem IsNamed.chars_toDoc (h : k.IsNamed path name) :
    Doc.chars i 0 k.toDoc =
      (k.marker.toList.flatMap fun marker => marker.text.toList) ++ Doc.chars i 0 path.toDoc := by
  obtain ⟨span, hfirst⟩ := h.first_eq
  have hvalue : Value.printed? k.value = none := by rw [h.value_eq]; rfl
  rw [chars_toDoc_of_path i 0 h.path_eq hfirst h.edges_eq hvalue, h.edgeIndex_eq, h.edgePath_eq,
    h.primary_eq]
  simp

theorem IsNamed.chars_path (h : k.IsNamed path name) :
    Doc.chars i 0 path.toDoc =
      (Escape.unquoted .key (Keyword.canonical name)).toList ++ path.furtherChars i 0 := by
  obtain ⟨span, hfirst⟩ := h.first_eq
  rw [path.chars_toDoc_of_head? i 0 hfirst, StringLit.chars_unquoted]

theorem IsNamed.head?_path_ne (h : k.IsNamed path name) :
    (Doc.chars i 0 path.toDoc).head? ≠ some '&' := by
  have hne : (Escape.unquoted .key (Keyword.canonical name)).toList ≠ [] := by
    simpa using Escape.unquoted_ne_empty .key (Keyword.canonical name)
  rw [h.chars_path, List.head?_append_of_ne_nil _ hne]
  exact Escape.head?_unquoted_ne_ampersand _

/-- The text of a path is that of another behind `!&` exactly if its name is made for it. -/
theorem IsNamed.chars_eq_negated_iff (h : k.IsNamed path name) (h' : k'.IsNamed path' name') :
    Doc.chars i 0 path.toDoc = '!' :: '&' :: Doc.chars i 0 path'.toDoc ↔
      Forges i path name path' name' := by
  have hrest := path.endsBare_furtherChars i 0
  have hrest' := path'.endsBare_furtherChars i 0
  rw [h.chars_path, h'.chars_path, Reading.unquoted_append_eq_negated_iff _ hrest]
  simp only [Keyword.canonical_eq_negated_iff, Reading.unquotedChars_append_eq_iff _ _ hrest hrest']
  constructor
  · rintro ⟨rest, hname, hspelled, hfurther⟩
    exact ⟨⟨rest, hname, hspelled⟩, hfurther⟩
  · rintro ⟨⟨rest, hname, hspelled⟩, hfurther⟩
    exact ⟨rest, hname, hspelled, hfurther⟩

/-- **Which keys have the same text.**  Two keys that are a marker and a path are printed alike
exactly if their markers are the same and their paths are printed alike, or if one has no marker
and a name that forges the marker `!&` of the other. -/
theorem format_eq_iff_of_isNamed (i : Indentation) (h : k.IsNamed path name)
    (h' : k'.IsNamed path' name') :
    (Node.key k).format i = (Node.key k').format i ↔
      (k.marker = k'.marker ∧ (Node.keyPath path).format i = (Node.keyPath path').format i) ∨
        (k.marker = none ∧ k'.marker = some .negatedFilter ∧ Forges i path name path' name') ∨
        (k.marker = some .negatedFilter ∧ k'.marker = none ∧ Forges i path' name' path name) := by
  rw [Node.format_eq_iff_chars, Node.format_eq_iff_chars, Node.toDoc, Node.toDoc, Node.toDoc,
    Node.toDoc, h.chars_toDoc, h'.chars_toDoc,
    Marker.append_eq_append_iff h.head?_path_ne h'.head?_path_ne, h.chars_eq_negated_iff h',
    h'.chars_eq_negated_iff h]

/-- A key with one segment, a bare text. -/
def ofName (marker : Option Marker) (name : String) : Key :=
  { ofPath (.ofTexts [name]) with marker }

theorem isNamed_ofName (marker : Option Marker) (name : String) :
    (ofName marker name).IsNamed (.ofTexts [name]) name :=
  ⟨rfl, ⟨.unset, rfl⟩, rfl, rfl, rfl, rfl, rfl⟩

/-- The name `!&a` without a marker and the name `a` with the marker `!&`. -/
theorem format_eq_iff_of_isNamed_forged :
    (ofName none "!&a").marker ≠ (ofName (some .negatedFilter) "a").marker ∧
      (Node.key (ofName none "!&a")).format {} =
        (Node.key (ofName (some .negatedFilter) "a")).format {} := by
  refine ⟨by decide, ?_⟩
  rw [format_eq_iff_of_isNamed {} (isNamed_ofName none "!&a")
    (isNamed_ofName (some .negatedFilter) "a")]
  refine Or.inr (Or.inl ⟨rfl, rfl, ⟨"a", rfl, ?_⟩, rfl⟩)
  rw [Keyword.canonical_of_not_isReserved (by decide +kernel)]
  exact .same (by decide) (by decide +kernel) (by simp [Escape.openers])

end Key
end DiagramText
