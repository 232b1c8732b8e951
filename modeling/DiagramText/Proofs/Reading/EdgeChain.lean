import DiagramText.Proofs.KeyText
import DiagramText.Proofs.Reading.Tree
import Mathlib.Data.List.Chain

/-!
# Reading a chain of edges back

A chain `a -> b <- c` is written without parentheses: the first path, and then for each
edge an arrow and the path that it leads to.  The source of every later edge is the
target of the edge before it, and is not written again.

A bare name in such a path has no closing mark, and the arrows are made of characters
that a name may have too.  A name may end in a hyphen, start with one, hold spaces, and
hold `- -` or `a -`.  So the reader cannot stop at a space or at a hyphen.  It stops at a
space that has an arrow behind it (`endsName`), and for that it looks two characters
ahead (`startsArrow`).

## Why no name looks like an arrow

An arrow starts with `<`, with `--` or with `->`.  The two heads bear a backslash
wherever they stand in a name.  A hyphen bears one exactly if another hyphen follows, so
of the hyphens without a backslash none has a hyphen behind it, and what follows a name
starts with a dot or a space or not at all (`startsArrow_unquotedChars_append`).

So a name is read back up to its end and no further, in front of all that can follow it
(`name_append`).  A chain is a path and the steps from it (`Hop`), and is read segment by
segment, where each segment has a dot, an arrow or nothing behind it.  **A chain is read
back from its text** (`Edge.readChain?_format`), and therefore **two chains with the same
text are equal** (`Edge.format_ofEdges_eq_iff`).
-/

namespace DiagramText

/-! ## Chains -/

namespace Edge

/-- An edge between two core paths, with at most a plain head on each side. -/
structure IsCore (e : Edge) : Prop where
  source : ∃ path, e.source = some path ∧ path.IsCore
  target : ∃ path, e.target = some path ∧ path.IsCore
  sourceArrow : e.sourceArrow = "" ∨ e.sourceArrow = "<"
  targetArrow : e.targetArrow = "" ∨ e.targetArrow = ">"
  span : e.span = .unset

/-- At least one edge, all of them core, each starting where the one before it ends. -/
structure IsCoreChain (edges : List Edge) : Prop where
  nonempty : edges ≠ []
  core : ∀ e ∈ edges, e.IsCore
  linked : edges.IsChain fun e next => next.source = e.target

end Edge

/-- A step of a chain: an arrow, and the path that it leads to. -/
structure Hop where
  sourceArrow : String
  targetArrow : String
  target : KeyPath

namespace Hop

/-- The edge that a step makes from the path where the chain stands. -/
def edge (source : KeyPath) (hop : Hop) : Edge :=
  ⟨some source, hop.sourceArrow, some hop.target, hop.targetArrow, .unset⟩

/-- The edges of a chain that starts at a path and takes the given steps. -/
def edges : KeyPath → List Hop → List Edge
  | _, [] => []
  | source, hop :: rest => hop.edge source :: edges hop.target rest

/-- A step to a core path, with at most a plain head on each side of the arrow. -/
structure IsCore (hop : Hop) : Prop where
  target : hop.target.IsCore
  sourceArrow : hop.sourceArrow = "" ∨ hop.sourceArrow = "<"
  targetArrow : hop.targetArrow = "" ∨ hop.targetArrow = ">"

/-- A core edge is a step from its source. -/
theorem exists_of_isCore {e : Edge} {source : KeyPath} (h : e.IsCore)
    (hsource : e.source = some source) : ∃ hop : Hop, hop.IsCore ∧ e = hop.edge source := by
  obtain ⟨target, htarget, hcore⟩ := h.target
  refine ⟨⟨e.sourceArrow, e.targetArrow, target⟩, ⟨hcore, h.sourceArrow, h.targetArrow⟩, ?_⟩
  obtain ⟨_, _, _, _, span⟩ := e
  obtain rfl : span = .unset := h.span
  subst hsource htarget
  rfl

/-- Core edges that are linked to each other are the steps of a chain from the source of
the first. -/
theorem exists_edges_eq {edges : List Edge} {source : KeyPath}
    (hcore : ∀ e ∈ edges, e.IsCore)
    (hlinked : edges.IsChain fun e next => next.source = e.target)
    (hsource : ∀ e ∈ edges.head?, e.source = some source) :
    ∃ hops : List Hop, (∀ hop ∈ hops, hop.IsCore) ∧ edges = Hop.edges source hops := by
  induction edges generalizing source with
  | nil => exact ⟨[], by simp, rfl⟩
  | cons e rest ih =>
      obtain ⟨hop, hhop, rfl⟩ := exists_of_isCore (hcore e List.mem_cons_self) (hsource e rfl)
      rw [List.isChain_cons] at hlinked
      obtain ⟨hops, hhops, rfl⟩ := ih (fun e he => hcore e (List.mem_cons_of_mem _ he))
        hlinked.2 hlinked.1
      exact ⟨hop :: hops, List.forall_mem_cons.mpr ⟨hhop, hhops⟩, rfl⟩

end Hop

/-- A core chain starts at a core path and takes core steps, at least one. -/
theorem Edge.IsCoreChain.exists_hops {edges : List Edge} (h : IsCoreChain edges) :
    ∃ (start : KeyPath) (hops : List Hop), start.IsCore ∧ hops ≠ [] ∧
      (∀ hop ∈ hops, hop.IsCore) ∧ edges = Hop.edges start hops := by
  obtain ⟨first, rest, rfl⟩ := List.exists_cons_of_ne_nil h.nonempty
  obtain ⟨start, hstart, hcore⟩ := (h.core first List.mem_cons_self).source
  have hhead : ∀ e ∈ (first :: rest).head?, e.source = some start := by
    rintro e he
    obtain rfl := Option.some.inj he
    exact hstart
  obtain ⟨hops, hhops, hedges⟩ := Hop.exists_edges_eq h.core h.linked hhead
  refine ⟨start, hops, hcore, ?_, hhops, hedges⟩
  rintro rfl
  exact absurd hedges (by simp [Hop.edges])

/-! ## The text of a chain -/

section Text

variable (i : Indentation) (n : Nat)

/-- The characters of a step, with the space that keeps it off what stands before. -/
def Hop.chars (hop : Hop) : List Char :=
  ' ' :: ((hop.edge hop.target).arrow.toList ++ ' ' :: Doc.chars i n hop.target.toDoc)

/-- The characters of a path and of the steps from it. -/
def Hop.walkChars (segments : List StringLit) (hops : List Hop) : List Char :=
  Doc.chars i n (KeyPath.toDoc ⟨segments, .unset⟩) ++ hops.flatMap (Hop.chars i n)

/-- A step prints its arrow and its target, wherever it starts. -/
theorem Hop.chars_eq (source : KeyPath) (hop : Hop) :
    hop.chars i n = ' ' :: Doc.chars i n (hop.edge source).arrowDoc := by
  rw [Hop.chars, Hop.edge, Hop.edge, Edge.arrowDoc, Doc.chars_concat]
  simp [Edge.arrow]

/-- The steps of a chain print one after the other. -/
theorem Hop.flatMap_chars_edges (source : KeyPath) (hops : List Hop) :
    ((Hop.edges source hops).flatMap fun e => ' ' :: Doc.chars i n e.arrowDoc) =
      hops.flatMap (Hop.chars i n) := by
  induction hops generalizing source with
  | nil => rfl
  | cons hop hops ih =>
      rw [Hop.edges, List.flatMap_cons, List.flatMap_cons, ih, ← Hop.chars_eq]

/-- **The text of a chain** is the path where it starts, followed by its steps. -/
theorem Hop.chars_toDoc_ofEdges (segments : List StringLit) {hops : List Hop} (hne : hops ≠ []) :
    Doc.chars i n (Key.ofEdges (Hop.edges ⟨segments, .unset⟩ hops)).toDoc =
      Hop.walkChars i n segments hops := by
  obtain ⟨hop, hops, rfl⟩ := List.exists_cons_of_ne_nil hne
  have hkey : Doc.chars i n (Key.ofEdges (Hop.edges ⟨segments, .unset⟩ (hop :: hops))).toDoc =
      Doc.chars i n (Edge.chainDoc (Hop.edges ⟨segments, .unset⟩ (hop :: hops))) := by
    simp [Key.ofEdges, Key.toDoc, Key.docOf, Key.subjectDocs, Key.edgeDocs, Key.isScoped,
      Key.fieldDocs, Key.primaryDocs, Key.valueDocs, Value.printed?, Hop.edges]
  rw [hkey, Hop.edges, Edge.chainDoc, Doc.chars_concat, Hop.walkChars, List.flatMap_cons,
    ← Hop.flatMap_chars_edges i n hop.target, Hop.chars_eq i n ⟨segments, .unset⟩]
  simp [Edge.sourceDocs, Hop.edge, List.flatMap_assoc]

end Text

/-! ## The reader -/

namespace Reading

/-- Whether an arrow starts here. -/
def startsArrow : List Char → Bool
  | '<' :: _ => true
  | '-' :: c :: _ => c == '-' || c == '>'
  | _ => false

/-- Whether a bare name at an end of an edge ends here: at the end of the text, at the
next segment, or at an arrow with its space. -/
def endsName : List Char → Bool
  | [] => true
  | '.' :: _ => true
  | ' ' :: rest => startsArrow rest
  | _ => false

/-- Reads a segment of a path at an end of an edge. -/
def name : List Char → Option (StringLit × List Char)
  | '"' :: rest => string .key ('"' :: rest)
  | '\x27' :: rest => string .key ('\x27' :: rest)
  | text =>
      some (.unquoted [.text (String.ofList (bare endsName text).1)] .unset, (bare endsName text).2)

/-- Reads an arrow and the space behind it.  The result is the heads on its two sides and
what follows. -/
def arrow : List Char → Option ((String × String) × List Char)
  | '-' :: '-' :: ' ' :: rest => some (("", ""), rest)
  | '-' :: '>' :: ' ' :: rest => some (("", ">"), rest)
  | '<' :: '-' :: ' ' :: rest => some (("<", ""), rest)
  | '<' :: '-' :: '>' :: ' ' :: rest => some (("<", ">"), rest)
  | _ => none

/-- Reads a path and the steps from it, with at most `n` segments in all.  The result is
the segments of the path and the steps. -/
def walk : Nat → List Char → Option (List StringLit × List Hop)
  | 0, _ => none
  | n + 1, text =>
      (name text).bind fun found =>
        match found.2 with
        | [] => some ([found.1], [])
        | '.' :: rest => (walk n rest).map fun others => (found.1 :: others.1, others.2)
        | ' ' :: rest =>
            (arrow rest).bind fun heads =>
              (walk n heads.2).map fun others =>
                ([found.1], ⟨heads.1.1, heads.1.2, ⟨others.1, .unset⟩⟩ :: others.2)
        | _ => none

/-! ## Names -/

/-- What is written for a text starts with a hyphen only if the text or what follows it
does. -/
theorem head?_unquotedChars_append_ne_hyphen {cs rest : List Char}
    (hcs : cs.head? ≠ some '-') (hrest : rest.head? ≠ some '-') :
    (Escape.unquotedChars .key false cs ++ rest).head? ≠ some '-' := by
  cases cs with
  | nil => exact hrest
  | cons c cs =>
      have hc : c ≠ '-' := fun h => hcs (by rw [h, List.head?_cons])
      rw [Escape.unquotedChars_cons, List.append_assoc]
      rcases Escape.unquotedChar_cases .key false c cs.head? with
        ⟨-, hwritten⟩ | ⟨-, -, hwritten⟩ | ⟨-, -, hwritten⟩ <;>
        simp [hwritten, hc]

/-- A text starts no arrow if it starts neither with `<` nor with a hyphen that has a hyphen or
`>` behind it. -/
theorem startsArrow_eq_false {text : List Char} (hhead : text.head? ≠ some '<')
    (hhyphen : ∀ rest, text = '-' :: rest → rest.head? ≠ some '-' ∧ rest.head? ≠ some '>') :
    startsArrow text = false := by
  unfold startsArrow
  split
  · exact absurd rfl hhead
  · rename_i c rest
    obtain ⟨hnext, hnext'⟩ := hhyphen (c :: rest) rfl
    rw [List.head?_cons, ne_eq, Option.some.injEq] at hnext hnext'
    simp [hnext, hnext']
  · rfl

/-- **Nothing in a name looks like an arrow**, whatever can stand behind the name. -/
theorem startsArrow_unquotedChars_append (cs : List Char) {rest : List Char}
    (hrest : endsName rest = true) :
    startsArrow (Escape.unquotedChars .key false cs ++ rest) = false := by
  have hless : rest.head? ≠ some '<' := head?_ne_of_stops (fun _ => rfl) hrest
  have hgreater : rest.head? ≠ some '>' := head?_ne_of_stops (fun _ => rfl) hrest
  have hhyphen : rest.head? ≠ some '-' := head?_ne_of_stops (fun _ => rfl) hrest
  refine startsArrow_eq_false
    (Escape.head?_unquotedChars_append_ne rfl (by decide) false cs fun _ => hless) ?_
  intro tail htail
  cases cs with
  | nil => exact absurd (congrArg List.head? htail) hhyphen
  | cons c cs =>
      rw [Escape.unquotedChars_cons, List.append_assoc] at htail
      rcases Escape.unquotedChar_cases .key false c cs.head? with
        ⟨-, hwritten⟩ | ⟨-, -, hwritten⟩ | ⟨-, hplain, hwritten⟩
      · exact absurd (congrArg List.head? htail) (by simp [hwritten])
      · exact absurd (congrArg List.head? htail) (by simp [hwritten])
      · rw [hwritten, List.singleton_append, List.cons.injEq] at htail
        obtain ⟨rfl, rfl⟩ := htail
        -- the hyphen has no backslash, so no hyphen stands behind it in the name
        have hnext : cs.head? ≠ some '-' := by
          rw [Escape.needsBackslash_of_not_isOpener rfl, Context.isActive_key_hyphen] at hplain
          simpa using hplain
        exact ⟨head?_unquotedChars_append_ne_hyphen hnext hhyphen,
          Escape.head?_unquotedChars_append_ne rfl (by decide) false cs fun _ => hgreater⟩

/-- A character without a backslash does not end a name, whatever stands behind the
name. -/
theorem endsName_cons_of_plain {opening : Bool} {c : Char} {cs rest : List Char}
    (hplain : Escape.needsBackslash .key opening c cs.head? = false)
    (hrest : endsName rest = true) :
    endsName (c :: (Escape.unquotedChars .key false cs ++ rest)) = false := by
  have hdot : c ≠ '.' := Escape.ne_of_isGuarded hplain rfl
  by_cases hspace : c = ' '
  · subst hspace
    exact startsArrow_unquotedChars_append cs hrest
  · simp [endsName, hdot, hspace]

/-- **A bare name is read back**, up to the place where it ends and no further. -/
theorem bare_endsName_append (opening : Bool) (cs : List Char) {rest : List Char}
    (hrest : endsName rest = true) :
    bare endsName (Escape.unquotedChars .key opening cs ++ rest) = (cs, rest) := by
  induction cs generalizing opening with
  | nil => exact bare_of_stops (fun _ => rfl) hrest
  | cons c cs ih =>
      rw [Escape.unquotedChars_cons, List.append_assoc,
        bare_unquotedChar_append fun hplain => endsName_cons_of_plain hplain hrest, ih]
      rfl

/-- A text that opens no quoted string is read as a bare name. -/
theorem name_of_bare {text : List Char} (double : text.head? ≠ some '"')
    (single : text.head? ≠ some '\x27') :
    name text =
      some (.unquoted [.text (String.ofList (bare endsName text).1)] .unset,
        (bare endsName text).2) := by
  rw [name]
  · rintro rest rfl
    exact double rfl
  · rintro rest rfl
    exact single rfl

/-- **A core string is read back** as a segment of a path at an end of an edge. -/
theorem name_append (i : Indentation) (n : Nat) {s : StringLit} (hs : s.IsCore)
    {rest : List Char} (hrest : endsName rest = true) :
    name (Doc.chars i n (s.toDoc .key) ++ rest) = some (s, rest) := by
  cases hs with
  | @unquoted s nonempty notNull notReserved =>
      have hne : s.toList ≠ [] := fun h => nonempty (String.toList_eq_nil_iff.mp h)
      rw [StringLit.chars_unquoted, Keyword.canonical_of_not_isReserved notReserved,
        Escape.toList_unquoted nonempty notNull,
        name_of_bare (Escape.head?_unquotedChars_true_append_ne rfl hne rest)
          (Escape.head?_unquotedChars_true_append_ne rfl hne rest),
        bare_endsName_append true s.toList hrest, String.ofList_toList]
  | doubleQuoted s =>
      rw [StringLit.chars_doubleQuoted, List.cons_append, List.append_assoc,
        List.singleton_append, name, string, doubleQuoted_append, Option.map_some,
        String.ofList_toList]
  | singleQuoted oneLine =>
      rw [StringLit.chars_singleQuoted, List.cons_append, List.append_assoc,
        List.singleton_append, name, string,
        singleQuoted_append_of_notMem oneLine (head?_ne_of_stops (fun _ => rfl) hrest),
        Option.map_some, String.ofList_toList]

/-! ## Arrows -/

/-- The arrow of a core step starts like an arrow, and its two heads are read back. -/
theorem arrow_append {hop : Hop} (h : hop.IsCore) (source : KeyPath) (rest : List Char) :
    startsArrow ((hop.edge source).arrow.toList ++ ' ' :: rest) = true ∧
      arrow ((hop.edge source).arrow.toList ++ ' ' :: rest) =
        some ((hop.sourceArrow, hop.targetArrow), rest) := by
  obtain ⟨sourceArrow, targetArrow, target⟩ := hop
  obtain ⟨-, hsource, htarget⟩ := h
  rcases hsource with rfl | rfl <;> rcases htarget with rfl | rfl <;>
    simp [Hop.edge, Edge.arrow, startsArrow, arrow]

/-! ## Walks -/

section Walk

variable (i : Indentation) (n : Nat)

/-- A walk that is a single segment. -/
theorem walkChars_singleton_nil (first : StringLit) :
    Hop.walkChars i n [first] [] = Doc.chars i n (first.toDoc .key) := by
  simp [Hop.walkChars, KeyPath.chars_toDoc]

/-- A walk with several segments in its first path. -/
theorem walkChars_cons_cons (first next : StringLit) (others : List StringLit)
    (hops : List Hop) :
    Hop.walkChars i n (first :: next :: others) hops =
      Doc.chars i n (first.toDoc .key) ++ '.' :: Hop.walkChars i n (next :: others) hops := by
  simp [Hop.walkChars, KeyPath.chars_toDoc]

/-- A walk with one segment in its first path, up to its next path. -/
theorem walkChars_singleton_cons (first : StringLit) {hop : Hop}
    (hspan : hop.target.span = .unset) (hops : List Hop) :
    Hop.walkChars i n [first] (hop :: hops) =
      Doc.chars i n (first.toDoc .key) ++ ' ' :: ((hop.edge hop.target).arrow.toList ++
        ' ' :: Hop.walkChars i n hop.target.segments hops) := by
  obtain ⟨_, _, segments, span⟩ := hop
  obtain rfl : span = .unset := hspan
  simp [Hop.walkChars, Hop.chars, KeyPath.chars_toDoc]

theorem length_walkChars_pos {first : StringLit} (h : first.IsCore) (others : List StringLit)
    (hops : List Hop) : 0 < (Hop.walkChars i n (first :: others) hops).length := by
  rw [Hop.walkChars, List.length_append, KeyPath.chars_toDoc, List.map_cons,
    Text.intercalate_cons_eq, List.length_append]
  have hpos := List.length_pos_iff.mpr (h.chars_ne_nil i n .key)
  omega

variable {n} {text rest rest' : List Char} {s : StringLit} {heads : String × String}

theorem walk_of_end (h : name text = some (s, [])) : walk (n + 1) text = some ([s], []) := by
  rw [walk, h]
  rfl

theorem walk_of_dot (h : name text = some (s, '.' :: rest)) :
    walk (n + 1) text = (walk n rest).map fun others => (s :: others.1, others.2) := by
  rw [walk, h]
  rfl

theorem walk_of_arrow (h : name text = some (s, ' ' :: rest))
    (harrow : arrow rest = some (heads, rest')) :
    walk (n + 1) text = (walk n rest').map fun others =>
      ([s], ⟨heads.1, heads.2, ⟨others.1, .unset⟩⟩ :: others.2) := by
  rw [walk, h]
  show (arrow rest).bind _ = _
  rw [harrow]
  rfl

variable (n)

/-- **A walk is read back from its text.** -/
theorem walk_walkChars {first : StringLit} {others : List StringLit} {hops : List Hop}
    (hfirst : first.IsCore) (hothers : ∀ segment ∈ others, segment.IsCore)
    (hhops : ∀ hop ∈ hops, hop.IsCore) (bound : Nat)
    (hbound : (Hop.walkChars i n (first :: others) hops).length ≤ bound) :
    walk bound (Hop.walkChars i n (first :: others) hops) = some (first :: others, hops) := by
  -- every segment has a text behind it that is shorter, so the bound can go down with it
  induction bound generalizing first others hops with
  | zero =>
      have hpos := length_walkChars_pos i n hfirst others hops
      omega
  | succ bound ih =>
      cases others with
      | cons next others =>
          obtain ⟨hnext, hothers⟩ := List.forall_mem_cons.mp hothers
          rw [walkChars_cons_cons] at hbound ⊢
          rw [List.length_append, List.length_cons] at hbound
          rw [walk_of_dot (name_append i n hfirst rfl), ih hnext hothers hhops (by omega)]
          rfl
      | nil =>
          cases hops with
          | nil =>
              have hread := name_append i n hfirst (rfl : endsName [] = true)
              rw [List.append_nil] at hread
              rw [walkChars_singleton_nil, walk_of_end hread]
          | cons hop hops =>
              obtain ⟨hhop, hhops⟩ := List.forall_mem_cons.mp hhops
              obtain ⟨next, others, htarget⟩ := List.exists_cons_of_ne_nil hhop.target.nonempty
              rw [walkChars_singleton_cons i n first hhop.target.span, htarget] at hbound ⊢
              rw [List.length_append, List.length_cons, List.length_append,
                List.length_cons] at hbound
              obtain ⟨hstarts, hheads⟩ := arrow_append hhop hop.target
                (Hop.walkChars i n (next :: others) hops)
              obtain ⟨hnext, hothers⟩ := List.forall_mem_cons.mp (htarget ▸ hhop.target.segments)
              rw [walk_of_arrow (name_append i n hfirst hstarts) hheads,
                ih hnext hothers hhops (by omega)]
              obtain ⟨_, _, segments, span⟩ := hop
              obtain rfl : span = .unset := hhop.target.span
              obtain rfl : segments = next :: others := htarget
              rfl

end Walk

end Reading

/-! ## Chains of edges -/

namespace Edge

/-- The chain of edges that is written in a text. -/
def readChain? (s : String) : Option (List Edge) :=
  (Reading.walk s.length s.toList).map fun found => Hop.edges ⟨found.1, .unset⟩ found.2

/-- **A chain of edges is read back from its text.** -/
theorem readChain?_format (i : Indentation) {edges : List Edge} (h : IsCoreChain edges) :
    readChain? ((Node.key (.ofEdges edges)).format i) = some edges := by
  obtain ⟨⟨segments, span⟩, hops, hstart, hne, hhops, rfl⟩ := h.exists_hops
  obtain rfl : span = .unset := hstart.span
  obtain ⟨first, others, rfl⟩ : ∃ first others, segments = first :: others :=
    List.exists_cons_of_ne_nil hstart.nonempty
  obtain ⟨hfirst, hothers⟩ := List.forall_mem_cons.mp hstart.segments
  rw [readChain?, ← String.length_toList, Node.toList_format, Node.toDoc,
    Hop.chars_toDoc_ofEdges i 0 (first :: others) hne,
    Reading.walk_walkChars i 0 hfirst hothers hhops _ (Nat.le_refl _)]
  rfl

/-- **Two chains of edges with the same text are equal.** -/
theorem format_ofEdges_eq_iff (i : Indentation) {edges edges' : List Edge}
    (h : IsCoreChain edges) (h' : IsCoreChain edges') :
    (Node.key (.ofEdges edges)).format i = (Node.key (.ofEdges edges')).format i ↔
      edges = edges' := by
  constructor
  · intro heq
    have hread := readChain?_format i h
    rw [heq, readChain?_format i h', Option.some.injEq] at hread
    exact hread.symm
  · rintro rfl
    rfl

/-- The edge `source -> target` between two bare names. -/
def link (source target : String) : Edge :=
  ⟨some (.ofTexts [source]), "", some (.ofTexts [target]), ">", .unset⟩

theorem isCore_link {source target : String}
    (h : ∀ s ∈ [source, target], s ≠ "" ∧ Text.isNull s = false ∧ Keyword.isReserved s = false) :
    (link source target).IsCore := by
  have hpath : ∀ s ∈ [source, target], (KeyPath.ofTexts [s]).IsCore := by
    intro s hs
    obtain ⟨hempty, hnull, hreserved⟩ := h s hs
    have hname : (StringLit.bare s).IsCore := .unquoted hempty hnull hreserved
    exact ⟨by simp [KeyPath.ofTexts], by simpa [KeyPath.ofTexts] using hname, rfl⟩
  exact ⟨⟨_, rfl, hpath source (by simp)⟩, ⟨_, rfl, hpath target (by simp)⟩, Or.inl rfl,
    Or.inr rfl, rfl⟩

/-- Two edges and a single edge to a name with an arrow in it are told apart, although the
names around them end and start with hyphens and spaces. -/
theorem format_ofEdges_eq_iff_arrow_in_name :
    IsCoreChain [link "a -" "b", link "b" "- c"] ∧ IsCoreChain [link "a -" "b -> - c"] ∧
      (Node.key (.ofEdges [link "a -" "b", link "b" "- c"])).format {} ≠
        (Node.key (.ofEdges [link "a -" "b -> - c"])).format {} := by
  have htwo : IsCoreChain [link "a -" "b", link "b" "- c"] := by
    refine ⟨by simp, ?_, by simp [link]⟩
    rw [List.forall_mem_cons, List.forall_mem_singleton]
    exact ⟨isCore_link (by decide +kernel), isCore_link (by decide +kernel)⟩
  have hone : IsCoreChain [link "a -" "b -> - c"] := by
    refine ⟨by simp, ?_, by simp⟩
    rw [List.forall_mem_singleton]
    exact isCore_link (by decide +kernel)
  exact ⟨htwo, hone, (format_ofEdges_eq_iff {} htwo hone).not.mpr (by simp)⟩

end Edge

end DiagramText
