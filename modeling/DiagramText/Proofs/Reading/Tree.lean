import DiagramText.Proofs.Reading.Fragment
import DiagramText.Tree.Equality

/-!
# Reading a file of keys and values back

A file of core entries can be read back from its text.  The reader below goes
through the text once, from left to right, and decides what to read by looking at
one character: a quote, an opening bracket or brace, or anything else for a bare
string.  It returns what it has read and what is left, and what is left decides
how to go on: a dot is followed by another segment, a colon by a value, a
semicolon by another entry.

## What has to be proved

Let `w` be the text of some part of a core tree and let `rest` be any text that
can stand after that part.  Then reading `w ++ rest` gives the part and leaves
`rest`.  The statement is made for every `rest`, because the texts of a tree are
nested in one another, and "can stand after it" is the same condition for all
parts: `closes` for values and entries, `endsBare` for strings.

The reader of values calls itself for what stands inside brackets, and a bound on
the depth of these calls is part of its input.  The length of the text will do,
and so the induction is on the bound; the trees are only taken apart, one level
at a time.

**Reading a file undoes printing it** (`MapLit.read?_format_file`), and therefore no two
files of core entries have the same text (`MapLit.format_eq_format_iff`).
-/

namespace DiagramText
namespace Reading

/-! ## The reader -/

/-- Reads a string of either quoted kind, or a bare one. -/
def string (ctx : Context) : List Char → Option (StringLit × List Char)
  | '"' :: rest =>
      (doubleQuoted ctx rest).map fun found =>
        (.doubleQuoted [.text (String.ofList found.1)] .unset, found.2)
  | '\x27' :: rest =>
      (singleQuoted rest).map fun found => (.singleQuoted (String.ofList found.1) .unset, found.2)
  | text =>
      let found := bare (endsBare ctx) text
      some (.unquoted [.text (String.ofList found.1)] .unset, found.2)

/-- Reads at most `n` strings with dots between them. -/
def names : Nat → List Char → Option (List StringLit × List Char)
  | 0, _ => none
  | n + 1, text =>
      (string .key text).bind fun found =>
        match found.2 with
        | '.' :: rest => (names n rest).map fun others => (found.1 :: others.1, others.2)
        | rest => some ([found.1], rest)

/-- The scalar that a string in the place of a value stands for. -/
def scalarOf (s : StringLit) : Scalar :=
  if s = .unquoted [.text "null"] .unset then .null .unset else .string s

/-- Reads a key: a path, and after a colon a value. -/
def entry (value : List Char → Option (Value × List Char)) (n : Nat) (text : List Char) :
    Option (Node × List Char) :=
  (names n text).bind fun found =>
    match found.2 with
    | ':' :: ' ' :: rest =>
        (value rest).map fun bound =>
          (.key (Key.ofPathValue ⟨found.1, .unset⟩ (some bound.1)), bound.2)
    | rest => some (.key (Key.ofPathValue ⟨found.1, .unset⟩ none), rest)

/-- Reads an element of an array. -/
def element (value : List Char → Option (Value × List Char)) (text : List Char) :
    Option (Node × List Char) :=
  (value text).map fun found => (.value found.1, found.2)

/-- Reads at most `n` items with semicolons between them, and the closing text. -/
def series (item : List Char → Option (Node × List Char)) (closing : List Char) :
    Nat → List Char → Option (List Node × List Char)
  | 0, _ => none
  | n + 1, text =>
      (item text).bind fun found =>
        if closing.isPrefixOf found.2 then some ([found.1], found.2.drop closing.length)
        else match found.2 with
          | ';' :: ' ' :: rest =>
              (series item closing n rest).map fun others => (found.1 :: others.1, others.2)
          | _ => none

/-- Reads a value whose brackets are nested less than `n` deep. -/
def value : Nat → List Char → Option (Value × List Char)
  | 0, _ => none
  | _ + 1, '[' :: ']' :: rest => some (.array ⟨[], .unset⟩, rest)
  | n + 1, '[' :: rest =>
      (series (element (value n)) [']'] n rest).map fun found =>
        (.array ⟨found.1, .unset⟩, found.2)
  | n + 1, '\x7b' :: ' ' :: rest =>
      (series (entry (value n) n) [' ', '\x7d'] n rest).map fun found =>
        (.map ⟨found.1, .unset, false⟩, found.2)
  | _ + 1, text => (string .value text).map fun found => (.scalar (scalarOf found.1), found.2)

/-- Reads at most `n` entries, each with a line feed behind it, up to the end. -/
def lines : Nat → List Char → Option (List Node)
  | _, [] => some []
  | 0, _ => none
  | n + 1, text =>
      (entry (value n) (n + 1) text).bind fun found =>
        match found.2 with
        | '\n' :: rest => (lines n rest).map (found.1 :: ·)
        | _ => none

/-! ## Strings and paths -/

/-- A text that opens no quoted string is read as a bare one. -/
theorem string_of_bare {ctx : Context} {text : List Char} (double : text.head? ≠ some '"')
    (single : text.head? ≠ some '\x27') :
    string ctx text =
      some (.unquoted [.text (String.ofList (bare (endsBare ctx) text).1)] .unset,
        (bare (endsBare ctx) text).2) := by
  rw [string]
  · rintro rest rfl
    exact double rfl
  · rintro rest rfl
    exact single rfl

/-- A text that is written bare is read as a bare string. -/
theorem string_unquotedChars {ctx : Context} {s : String} {rest : List Char} (hne : s ≠ "")
    (hrest : endsBare ctx rest = true) :
    string ctx (Escape.unquotedChars ctx true s.toList ++ rest) =
      some (.unquoted [.text s] .unset, rest) := by
  have hne' : s.toList ≠ [] := fun h => hne (String.toList_eq_nil_iff.mp h)
  rw [string_of_bare (Escape.head?_unquotedChars_true_append_ne rfl hne' rest)
    (Escape.head?_unquotedChars_true_append_ne rfl hne' rest),
    bare_unquotedChars_append true s.toList hrest, String.ofList_toList]

/-- **A core string is read back** in front of everything that ends a bare string. -/
theorem string_append (i : Indentation) (n : Nat) {ctx : Context} {s : StringLit}
    (hs : s.IsCore) {rest : List Char} (hrest : endsBare ctx rest = true) :
    string ctx (Doc.chars i n (s.toDoc ctx) ++ rest) = some (s, rest) := by
  cases hs with
  | unquoted nonempty notNull notReserved =>
      rw [StringLit.chars_unquoted, Keyword.canonical_of_not_isReserved notReserved,
        Escape.toList_unquoted nonempty notNull]
      exact string_unquotedChars nonempty hrest
  | doubleQuoted s =>
      rw [StringLit.chars_doubleQuoted, List.cons_append, List.append_assoc,
        List.singleton_append, string, doubleQuoted_append, Option.map_some, String.ofList_toList]
  | singleQuoted oneLine =>
      rw [StringLit.chars_singleQuoted, List.cons_append, List.append_assoc,
        List.singleton_append, string,
        singleQuoted_append_of_notMem oneLine
          (head?_ne_of_stops (fun _ => by cases ctx <;> rfl) hrest),
        Option.map_some, String.ofList_toList]

/-- Core strings with dots between them are read back, if there is at least one
and no dot follows. -/
theorem names_append (i : Indentation) (n : Nat) {segments : List StringLit}
    (hne : segments ≠ []) (hcore : ∀ segment ∈ segments, segment.IsCore) {rest : List Char}
    (hrest : endsBare .key rest = true) (hdot : rest.head? ≠ some '.') (bound : Nat)
    (hbound : segments.length ≤ bound) :
    names bound (['.'].intercalate (segments.map fun segment =>
      Doc.chars i n (segment.toDoc .key)) ++ rest) = some (segments, rest) := by
  obtain ⟨first, others, rfl⟩ := List.exists_cons_of_ne_nil hne
  have hfirst := hcore first List.mem_cons_self
  induction others generalizing first bound with
  | nil =>
      obtain ⟨bound, rfl⟩ := Nat.exists_eq_add_of_le' hbound
      rw [List.map_singleton, List.intercalate_singleton, List.length_singleton, names,
        string_append i n hfirst hrest, Option.bind_some]
      split
      · rename_i tail htail
        exact absurd (congrArg List.head? htail) hdot
      · rfl
  | cons next others ih =>
      rw [List.length_cons] at hbound
      obtain ⟨bound, rfl⟩ := Nat.exists_eq_add_of_le' (by omega : 1 ≤ bound)
      have hothers := ih bound next (by simp)
        (fun segment hsegment => hcore segment (List.mem_cons_of_mem first hsegment))
        (by omega) (hcore next (by simp))
      rw [List.map_cons, List.map_cons, List.intercalate_cons_cons, List.append_assoc,
        List.append_assoc, List.singleton_append, names, string_append i n hfirst rfl,
        Option.bind_some]
      rw [List.map_cons] at hothers
      show (names bound _).map _ = _
      rw [hothers]
      rfl

/-! ## Entries -/

/-- A key path is read back in front of a value or of what follows its entry. -/
theorem names_path_append (i : Indentation) (n : Nat) {path : KeyPath} (hpath : path.IsCore)
    (rest : List Char) (hrest : endsBare .key rest = true) (hdot : rest.head? ≠ some '.')
    {bound : Nat} (hbound : (Doc.chars i n path.toDoc).length < bound) :
    ∃ segments, path = ⟨segments, .unset⟩ ∧
      names bound (Doc.chars i n path.toDoc ++ rest) = some (segments, rest) := by
  obtain ⟨segments, span⟩ := path
  have hspan : span = .unset := hpath.span
  have hne : segments ≠ [] := hpath.nonempty
  refine ⟨segments, by rw [hspan], ?_⟩
  rw [KeyPath.chars_toDoc] at hbound ⊢
  have hlength := Text.length_le_length_intercalate ['.'] (by simp)
    (segments.map fun segment => Doc.chars i n (segment.toDoc .key))
  rw [List.length_map] at hlength
  exact names_append i n hne hpath.segments hrest hdot bound (by omega)

/-- A core entry is read back, if the reader of values reads back the core values
whose text is no longer than the text of the entry. -/
theorem entry_append (i : Indentation) (n : Nat)
    {read : List Char → Option (Value × List Char)} {node : Node} (hnode : node.IsCoreEntry)
    (hread : ∀ v : Value, v.IsCore →
      (Doc.chars i n v.toDoc).length ≤ (Doc.chars i n node.toDoc).length →
      ∀ rest, closes rest = true → read (Doc.chars i n v.toDoc ++ rest) = some (v, rest))
    {bound : Nat} (hbound : (Doc.chars i n node.toDoc).length < bound) {rest : List Char}
    (hrest : closes rest = true) :
    entry read bound (Doc.chars i n node.toDoc ++ rest) = some (node, rest) := by
  cases hnode with
  | @bare path core ordinary =>
      have hchars : Doc.chars i n (Node.key (Key.ofPathValue path none)).toDoc =
          Doc.chars i n path.toDoc := by
        rw [Node.toDoc, Key.chars_toDoc_ofPathValue, Value.printed?]
        exact List.append_nil _
      rw [hchars] at hbound ⊢
      obtain ⟨segments, rfl, hnames⟩ := names_path_append i n core rest
        (endsBare_of_closes hrest .key) (head?_ne_of_stops (fun _ => rfl) hrest) hbound
      rw [entry, hnames, Option.bind_some]
      split
      · rename_i tail htail
        exact absurd (congrArg List.head? htail) (head?_ne_of_stops (fun _ => rfl) hrest)
      · rfl
  | @bound path v core coreValue ordinary =>
      have hchars : Doc.chars i n (Node.key (Key.ofPathValue path (some v))).toDoc =
          Doc.chars i n path.toDoc ++ ':' :: ' ' :: Doc.chars i n v.toDoc := by
        rw [Node.toDoc, Key.chars_toDoc_ofPathValue, coreValue.printed?_eq]
        simp
      rw [hchars, List.length_append, List.length_cons, List.length_cons] at hbound hread
      obtain ⟨segments, rfl, hnames⟩ := names_path_append i n core
        (':' :: ' ' :: (Doc.chars i n v.toDoc ++ rest)) rfl (by simp)
        (by omega : (Doc.chars i n path.toDoc).length < bound)
      rw [hchars, List.append_assoc, List.cons_append, List.cons_append, entry, hnames,
        Option.bind_some]
      show (read _).map _ = _
      rw [hread v coreValue (by omega) rest hrest]
      rfl

/-! ## Series of items -/

/-- Items with semicolons between them are read back together with what closes
them, if each item is read back on its own. -/
theorem series_append {item : List Char → Option (Node × List Char)} {closing : List Char}
    {text : Node → List Char} {nodes : List Node} (hne : nodes ≠ [])
    (hitem : ∀ node ∈ nodes, ∀ rest, closes rest = true →
      item (text node ++ rest) = some (node, rest))
    (hcloses : ∀ rest, closes (closing ++ rest) = true)
    (hclosing : ∀ rest, closing.isPrefixOf (';' :: rest) = false)
    (bound : Nat) (hbound : nodes.length ≤ bound) (rest : List Char) :
    series item closing bound ([';', ' '].intercalate (nodes.map text) ++ (closing ++ rest)) =
      some (nodes, rest) := by
  obtain ⟨first, others, rfl⟩ := List.exists_cons_of_ne_nil hne
  have hfirst := hitem first List.mem_cons_self
  induction others generalizing first bound with
  | nil =>
      obtain ⟨bound, rfl⟩ := Nat.exists_eq_add_of_le' hbound
      have hend : closing.isPrefixOf (closing ++ rest) = true :=
        List.isPrefixOf_iff_prefix.mpr (List.prefix_append closing rest)
      rw [List.map_singleton, List.intercalate_singleton, List.length_singleton, series,
        hfirst _ (hcloses rest), Option.bind_some, if_pos hend, List.drop_left]
  | cons next others ih =>
      rw [List.length_cons] at hbound
      obtain ⟨bound, rfl⟩ := Nat.exists_eq_add_of_le' (by omega : 1 ≤ bound)
      have hothers := ih bound next (by simp)
        (fun node hnode => hitem node (List.mem_cons_of_mem first hnode)) (by omega)
        (hitem next (by simp))
      rw [List.map_cons, List.map_cons, List.intercalate_cons_cons, List.append_assoc,
        List.append_assoc, List.cons_append, List.cons_append, List.nil_append, series,
        hfirst _ rfl, Option.bind_some, hclosing, if_neg Bool.false_ne_true]
      rw [List.map_cons] at hothers
      show (series item closing bound _).map _ = _
      rw [hothers]
      rfl

/-! ## Values -/

/-- A text that opens neither an array nor a map is read as a scalar. -/
theorem value_of_string {n : Nat} {text : List Char} (bracket : text.head? ≠ some '[')
    (brace : text.head? ≠ some '\x7b') :
    value (n + 1) text =
      (string .value text).map fun found => (.scalar (scalarOf found.1), found.2) := by
  rw [value]
  · rintro rest rfl
    exact bracket rfl
  · rintro rest rfl
    exact bracket rfl
  · rintro rest rfl
    exact brace rfl

/-- A core string is not the word that stands for the null value. -/
theorem scalarOf_of_isCore {s : StringLit} (h : s.IsCore) : scalarOf s = .string s := by
  refine if_neg ?_
  rintro rfl
  cases h with
  | unquoted nonempty notNull notReserved => exact absurd notNull (by decide +kernel)

/-- A core string does not open an array or a map, nor does it close an array. -/
theorem head?_string_ne (i : Indentation) (n : Nat) {s : StringLit} (hs : s.IsCore)
    (rest : List Char) {d : Char} (hd : d = '[' ∨ d = ']' ∨ d = '\x7b') :
    (Doc.chars i n (s.toDoc .value) ++ rest).head? ≠ some d := by
  cases hs with
  | @unquoted s nonempty notNull notReserved =>
      have hguarded : Escape.isGuarded .value d = true ∧ d ≠ '\\' := by
        rcases hd with rfl | rfl | rfl <;> decide
      rw [StringLit.chars_unquoted, Keyword.canonical_of_not_isReserved notReserved,
        Escape.toList_unquoted nonempty notNull]
      exact Escape.head?_unquotedChars_append_ne hguarded.1 hguarded.2 true s.toList
        fun hnil => absurd (String.toList_eq_nil_iff.mp hnil) nonempty
  | doubleQuoted s =>
      rw [StringLit.chars_doubleQuoted]
      rcases hd with rfl | rfl | rfl <;> simp
  | singleQuoted oneLine =>
      rw [StringLit.chars_singleQuoted]
      rcases hd with rfl | rfl | rfl <;> simp

/-- The text of a core value does not start with the bracket that closes an
array. -/
theorem head?_value_ne (i : Indentation) (n : Nat) {v : Value} (hv : v.IsCore)
    (rest : List Char) : (Doc.chars i n v.toDoc ++ rest).head? ≠ some ']' := by
  cases hv with
  | null =>
      rw [Value.toDoc, Scalar.toDoc, Doc.chars_ofString]
      simp
  | string core => exact head?_string_ne i n core rest (Or.inr (Or.inl rfl))
  | array elements =>
      rw [Value.toDoc, ArrayLit.chars_toDoc]
      simp
  | @scope nodes nonempty entries =>
      rw [Value.toDoc, MapLit.chars_toDoc_scope i n entries
        (MapLit.intercalate_ne_nil i n nonempty entries)]
      simp

/-- The null value is read back. -/
theorem value_null (i : Indentation) (n bound : Nat) {rest : List Char}
    (hrest : closes rest = true) :
    value (bound + 1) (Doc.chars i n (Value.scalar (.null .unset)).toDoc ++ rest) =
      some (.scalar (.null .unset), rest) := by
  have hwritten : "null".toList = Escape.unquotedChars .value true "null".toList := by decide
  have hread := string_unquotedChars (by decide : "null" ≠ "") (endsBare_of_closes hrest .value)
  rw [← hwritten] at hread
  rw [Value.toDoc, Scalar.toDoc, Doc.chars_ofString, value_of_string (by simp) (by simp), hread,
    Option.map_some, scalarOf, if_pos rfl]

/-- A core string is read back in the place of a value. -/
theorem value_string (i : Indentation) (n bound : Nat) {s : StringLit} (hs : s.IsCore)
    {rest : List Char} (hrest : closes rest = true) :
    value (bound + 1) (Doc.chars i n (Value.scalar (.string s)).toDoc ++ rest) =
      some (.scalar (.string s), rest) := by
  rw [Value.toDoc, Scalar.toDoc, value_of_string (head?_string_ne i n hs rest (Or.inl rfl))
    (head?_string_ne i n hs rest (Or.inr (Or.inr rfl))),
    string_append i n hs (endsBare_of_closes hrest .value), Option.map_some,
    scalarOf_of_isCore hs]

/-- An array that does not close at once has elements. -/
theorem value_bracket {n : Nat} {text : List Char} (h : text.head? ≠ some ']') :
    value (n + 1) ('[' :: text) =
      (series (element (value n)) [']'] n text).map fun found =>
        (.array ⟨found.1, .unset⟩, found.2) := by
  rw [value]
  rintro rest rfl
  exact h rfl

/-- An array is read back, if the reader one level down reads back the core values
whose text is shorter. -/
theorem value_array (i : Indentation) (n bound : Nat) {nodes : List Node}
    (elements : ∀ node ∈ nodes, node.IsCoreElement)
    (hread : ∀ v : Value, v.IsCore → (Doc.chars i n v.toDoc).length ≤ bound →
      ∀ rest, closes rest = true → value bound (Doc.chars i n v.toDoc ++ rest) = some (v, rest))
    (hbound : (Doc.chars i n (Value.array ⟨nodes, .unset⟩).toDoc).length ≤ bound + 1)
    (rest : List Char) :
    value (bound + 1) (Doc.chars i n (Value.array ⟨nodes, .unset⟩).toDoc ++ rest) =
      some (.array ⟨nodes, .unset⟩, rest) := by
  rw [Value.toDoc, ArrayLit.chars_toDoc] at hbound ⊢
  by_cases hne : nodes = []
  · subst hne
    simp [value]
  · have hlength := Text.length_le_length_intercalate [';', ' '] (by simp)
      (nodes.map fun node => Doc.chars i n node.toDoc)
    rw [List.length_cons, List.length_append, List.length_singleton] at hbound
    rw [List.length_map] at hlength
    have hitem : ∀ node ∈ nodes, ∀ rest, closes rest = true →
        element (value bound) (Doc.chars i n node.toDoc ++ rest) = some (node, rest) := by
      intro node hnode rest hrest
      have hle := Text.length_le_length_intercalate_of_mem [';', ' ']
        (List.mem_map_of_mem (f := fun node => Doc.chars i n (Node.toDoc node)) hnode)
      obtain ⟨core⟩ := elements node hnode
      rw [Node.toDoc] at hle ⊢
      rw [element, hread _ core (by omega) rest hrest]
      rfl
    have hopen : ([';', ' '].intercalate (nodes.map fun node => Doc.chars i n node.toDoc) ++
        ([']'] ++ rest)).head? ≠ some ']' := by
      obtain ⟨first, others, rfl⟩ := List.exists_cons_of_ne_nil hne
      obtain ⟨core⟩ := elements first List.mem_cons_self
      rw [List.map_cons, Text.intercalate_cons_eq, List.append_assoc, Node.toDoc]
      exact head?_value_ne i n core _
    rw [List.cons_append, List.append_assoc, value_bracket hopen,
      series_append hne hitem (fun _ => rfl) (fun _ => rfl) bound (by omega) rest]
    rfl

/-- A scope is read back, if the reader one level down reads back the core values
whose text is shorter. -/
theorem value_scope (i : Indentation) (n bound : Nat) {nodes : List Node} (hne : nodes ≠ [])
    (entries : ∀ node ∈ nodes, node.IsCoreEntry)
    (hread : ∀ v : Value, v.IsCore → (Doc.chars i n v.toDoc).length ≤ bound →
      ∀ rest, closes rest = true → value bound (Doc.chars i n v.toDoc ++ rest) = some (v, rest))
    (hbound : (Doc.chars i n (Value.map ⟨nodes, .unset, false⟩).toDoc).length ≤ bound + 1)
    (rest : List Char) :
    value (bound + 1) (Doc.chars i n (Value.map ⟨nodes, .unset, false⟩).toDoc ++ rest) =
      some (.map ⟨nodes, .unset, false⟩, rest) := by
  rw [Value.toDoc, MapLit.chars_toDoc_scope i n entries
    (MapLit.intercalate_ne_nil i n hne entries)] at hbound ⊢
  have hlength := Text.length_le_length_intercalate [';', ' '] (by simp)
    (nodes.map fun node => Doc.chars i n node.toDoc)
  rw [List.length_cons, List.length_cons, List.length_append, List.length_cons] at hbound
  rw [List.length_map] at hlength
  have hitem : ∀ node ∈ nodes, ∀ rest, closes rest = true →
      entry (value bound) bound (Doc.chars i n node.toDoc ++ rest) = some (node, rest) := by
    intro node hnode rest hrest
    have hle := Text.length_le_length_intercalate_of_mem [';', ' ']
      (List.mem_map_of_mem (f := fun node => Doc.chars i n (Node.toDoc node)) hnode)
    exact entry_append i n (entries node hnode)
      (fun v hv hv' => hread v hv (by omega)) (by omega) hrest
  rw [List.cons_append, List.cons_append, List.append_assoc, value,
    series_append hne hitem (fun _ => rfl) (fun _ => rfl) bound (by omega) rest]
  rfl

/-- **A core value is read back** in front of everything that closes a value. -/
theorem value_append (i : Indentation) (n bound : Nat) {v : Value} (hv : v.IsCore)
    (hbound : (Doc.chars i n v.toDoc).length ≤ bound) {rest : List Char}
    (hrest : closes rest = true) :
    value bound (Doc.chars i n v.toDoc ++ rest) = some (v, rest) := by
  -- what stands inside brackets has a shorter text, so the bound can go down with them
  induction bound generalizing v rest with
  | zero => exact absurd (List.length_eq_zero_iff.mp (Nat.le_zero.mp hbound)) (hv.chars_ne_nil i n)
  | succ bound ih =>
      have hread : ∀ v : Value, v.IsCore → (Doc.chars i n v.toDoc).length ≤ bound →
          ∀ rest, closes rest = true →
            value bound (Doc.chars i n v.toDoc ++ rest) = some (v, rest) :=
        fun v hv hle rest hrest => ih hv hle hrest
      cases hv with
      | null => exact value_null i n bound hrest
      | string core => exact value_string i n bound core hrest
      | array elements => exact value_array i n bound elements hread hbound rest
      | scope nonempty entries => exact value_scope i n bound nonempty entries hread hbound rest

/-! ## Files -/

/-- Entries with a line feed behind each are read back. -/
theorem lines_flatMap (i : Indentation) {nodes : List Node}
    (hcore : ∀ node ∈ nodes, node.IsCoreEntry) (bound : Nat)
    (hbound : (nodes.flatMap fun node => Doc.chars i 0 node.toDoc ++ ['\n']).length ≤ bound) :
    lines bound (nodes.flatMap fun node => Doc.chars i 0 node.toDoc ++ ['\n']) = some nodes := by
  induction nodes generalizing bound with
  | nil => cases bound <;> rfl
  | cons node nodes ih =>
      rw [List.flatMap_cons, List.append_assoc, List.singleton_append] at hbound ⊢
      rw [List.length_append, List.length_cons] at hbound
      obtain ⟨bound, rfl⟩ := Nat.exists_eq_add_of_le' (by omega : 1 ≤ bound)
      have hentry := entry_append i 0 (hcore node List.mem_cons_self)
        (fun v hv hle rest hrest => value_append i 0 bound hv (by omega) hrest)
        (by omega : _ < bound + 1)
        (rfl : closes ('\n' :: nodes.flatMap fun node => Doc.chars i 0 node.toDoc ++ ['\n']) = true)
      have hothers := ih (fun node hnode => hcore node (List.mem_cons_of_mem _ hnode)) bound
        (by omega)
      rw [lines, hentry, Option.bind_some]
      · show (lines bound _).map _ = _
        rw [hothers]
        rfl
      · intro hnil
        exact absurd hnil (by simp)

end Reading

namespace MapLit

/-- The file of keys and values that is written in a text. -/
def read? (s : String) : Option MapLit := (Reading.lines s.length s.toList).map MapLit.file

/-- **A file of core entries is read back from its text.** -/
theorem read?_format_file (i : Indentation) {m : MapLit} (h : m.IsCoreFile) :
    read? ((Node.value (.map m)).format i) = some m := by
  obtain ⟨nodes, span, isFile⟩ := m
  have hfile : isFile = true := h.isFile
  have hspan : span = .unset := h.span
  have hcore : ∀ node ∈ nodes, node.IsCoreEntry := h.entries
  subst hfile hspan
  have hchars : ((Node.value (.map ⟨nodes, .unset, true⟩)).format i).toList =
      nodes.flatMap fun node => Doc.chars i 0 node.toDoc ++ ['\n'] := by
    rw [Node.format_eq_render, ← Doc.chars, Node.toDoc, Value.toDoc,
      MapLit.chars_toDoc_file i hcore fun node hnode => (hcore node hnode).chars_ne_nil i 0]
  rw [read?, ← String.length_toList, hchars, Reading.lines_flatMap i hcore _ (Nat.le_refl _)]
  rfl

/-- **No two files of core entries have the same text.** -/
theorem format_eq_format_iff (i : Indentation) {m m' : MapLit} (h : m.IsCoreFile)
    (h' : m'.IsCoreFile) :
    (Node.value (.map m)).format i = (Node.value (.map m')).format i ↔ m = m' := by
  constructor
  · intro heq
    have hread := read?_format_file i h
    rw [heq, read?_format_file i h', Option.some.injEq] at hread
    exact hread.symm
  · rintro rfl
    rfl

/-- The file in which the key `a` is an array of bare strings. -/
def ofArray (texts : List String) : MapLit :=
  .file [.key (.ofPathValue (.ofTexts ["a"])
    (some (.array ⟨texts.map fun s => .ofString (.bare s), .unset⟩)))]

theorem isCoreFile_ofArray {texts : List String}
    (h : ∀ s ∈ texts, s ≠ "" ∧ Text.isNull s = false ∧ Keyword.isReserved s = false) :
    (ofArray texts).IsCoreFile := by
  have hname : (StringLit.bare "a").IsCore :=
    .unquoted (by decide) (by decide +kernel) (by decide +kernel)
  have hpath : (KeyPath.ofTexts ["a"]).IsCore :=
    ⟨by simp [KeyPath.ofTexts], by simpa [KeyPath.ofTexts] using hname, rfl⟩
  refine ⟨rfl, rfl, ?_⟩
  intro node hnode
  obtain rfl := List.mem_singleton.mp hnode
  refine .bound hpath (.array fun element helement => ?_) rfl
  obtain ⟨s, hs, rfl⟩ := List.mem_map.mp helement
  obtain ⟨hempty, hnull, hreserved⟩ := h s hs
  exact .value (.string (.unquoted hempty hnull hreserved))

/-- Two strings and one string with a semicolon in it are told apart, although a
semicolon is what stands between two. -/
theorem format_eq_format_iff_semicolon :
    (ofArray ["b", "c"]).IsCoreFile ∧ (ofArray ["b; c"]).IsCoreFile ∧
      (Node.value (.map (ofArray ["b", "c"]))).format {} ≠
        (Node.value (.map (ofArray ["b; c"]))).format {} := by
  have htwo : (ofArray ["b", "c"]).IsCoreFile := isCoreFile_ofArray (by decide +kernel)
  have hone : (ofArray ["b; c"]).IsCoreFile := isCoreFile_ofArray (by decide +kernel)
  refine ⟨htwo, hone, (format_eq_format_iff {} htwo hone).not.mpr ?_⟩
  simp [ofArray, file, Key.ofPathValue]

end MapLit

end DiagramText
