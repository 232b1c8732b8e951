import DiagramText.Tree.Literal

/-!
# The tree of a diagram

A diagram is a map, and a map is a list of entries.  Most entries are keys: a
path, possibly with a chain of edges, and possibly with a value, which may be a
map again.  Comments, substitutions and imports stand between them, and for the
sake of tools that print a part of a diagram, every part that has a text of its
own counts as a node.

A node that is a value is the same node wherever it stands: an element of an
array, an entry of a map and the value of a key are all a `Value`, and there is
one rule for its text.  Where a function on nodes has a case for each kind of
value, it matches on the names that the kinds have as nodes (`Node.null`,
`Node.unquoted`, `Node.array` and so on), and a string, a scalar and a value
become a node kind by kind (`Node.ofString`, `Node.ofScalar`, `Node.ofValue`).
-/

namespace DiagramText

/-- How a comment is marked. -/
inductive CommentStyle where
  /-- Each line of the comment starts with `#`. -/
  | line
  /-- The comment stands between two rows of three double quotes. -/
  | block
  deriving DecidableEq

/-- A remark for the reader of the source. -/
structure Comment where
  style : CommentStyle
  text : String
  span : Span := .unset
  deriving DecidableEq

/-- A reference to another file: `@dir/path`, or `...@dir/path` when its fields
are to be spread into the surrounding map. -/
structure Import where
  spread : Bool
  /-- The directory in front of the path, written as it is. -/
  directory : String
  path : KeyPath
  span : Span

/-- A connection between two key paths.  An arrow is empty for a plain line, and
otherwise the head that is written on its side. -/
structure Edge where
  source : Option KeyPath := none
  sourceArrow : String := ""
  target : Option KeyPath := none
  targetArrow : String := ""
  span : Span := .unset

/-- Which of several edges is meant: one of them, or all. -/
structure EdgeIndex where
  /-- The number of the edge; nothing for all of them. -/
  index : Option Nat
  span : Span := .unset
  deriving DecidableEq

/-- The mark in front of a key that acts as a filter. -/
inductive Marker where
  /-- The filter asks for the key: `&`. -/
  | filter
  /-- The filter excludes the key: `!&`. -/
  | negatedFilter
  deriving DecidableEq

mutual

/-- What a key may be bound to. -/
inductive Value where
  | scalar (content : Scalar)
  | imported (file : Import)
  | array (content : ArrayLit)
  | map (content : MapLit)

/-- A list of values, `[ … ]`. -/
structure ArrayLit where
  nodes : List Node
  span : Span

/-- A scope, `{ … }`, or a whole file. -/
structure MapLit where
  nodes : List Node
  span : Span
  isFile : Bool

/-- An entry of a map that declares something: `a.b: value`, an edge chain
`(x -> y)[0].style: value`, or both. -/
structure Key where
  marker : Option Marker
  /-- What is declared, or where the edges start from. -/
  path : Option KeyPath
  edges : List Edge
  edgeIndex : Option EdgeIndex
  /-- The field of the edges that is meant. -/
  edgePath : Option KeyPath
  /-- A short value in front of a map, as in `x: Label { … }`. -/
  primary : Option Scalar
  value : Option Value
  span : Span

/-- A part of a diagram that has a text of its own. -/
inductive Node where
  | comment (content : Comment)
  | value (content : Value)
  | substitution (content : Substitution)
  | key (content : Key)
  | keyPath (content : KeyPath)
  | edge (content : Edge)
  | edgeIndex (content : EdgeIndex)

end

namespace MapLit

/-- A whole file, outside every source. -/
def file (nodes : List Node) : MapLit := ⟨nodes, .unset, true⟩

/-- A scope inside a file, outside every source. -/
def scope (nodes : List Node) : MapLit := ⟨nodes, .unset, false⟩

end MapLit

namespace Key

/-- A key that is only a path. -/
def ofPath (path : KeyPath) : Key := ⟨none, some path, [], none, none, none, none, .unset⟩

/-- A key that is only a chain of edges. -/
def ofEdges (edges : List Edge) : Key := ⟨none, none, edges, none, none, none, none, .unset⟩

end Key

namespace Value

/-- The map that a value is, if it is one. -/
def map? : Value → Option MapLit
  | .map content => some content
  | _ => none

/-- The place where a value is written. -/
def span : Value → Span
  | .scalar content => content.span
  | .imported file => file.span
  | .array content => content.span
  | .map content => content.span

@[simp] theorem map?_map (m : MapLit) : (Value.map m).map? = some m := rfl

theorem map?_eq_some_iff (v : Value) (m : MapLit) : v.map? = some m ↔ v = .map m := by
  cases v <;> simp [map?]

end Value

namespace Node

/-! ### The kinds of values, as nodes -/

/-- The null value. -/
@[match_pattern] abbrev null (span : Span) : Node := .value (.scalar (.null span))

/-- A suspension, or the end of one. -/
@[match_pattern] abbrev suspension (suspend : Bool) (span : Span) : Node :=
  .value (.scalar (.suspension suspend span))

/-- A truth value. -/
@[match_pattern] abbrev boolean (content : Bool) (span : Span) : Node :=
  .value (.scalar (.boolean content span))

/-- A number. -/
@[match_pattern] abbrev number (raw : String) (span : Span) : Node :=
  .value (.scalar (.number raw span))

/-- A string without quotes. -/
@[match_pattern] abbrev unquoted (pieces : List Piece) (span : Span) : Node :=
  .value (.scalar (.string (.unquoted pieces span)))

/-- A string between double quotes. -/
@[match_pattern] abbrev doubleQuoted (pieces : List Piece) (span : Span) : Node :=
  .value (.scalar (.string (.doubleQuoted pieces span)))

/-- A string between single quotes. -/
@[match_pattern] abbrev singleQuoted (content : String) (span : Span) : Node :=
  .value (.scalar (.string (.singleQuoted content span)))

/-- A string between pipes. -/
@[match_pattern] abbrev block (content : BlockString) : Node :=
  .value (.scalar (.string (.block content)))

/-- An import. -/
@[match_pattern] abbrev imported (file : Import) : Node := .value (.imported file)

/-- An array. -/
@[match_pattern] abbrev array (content : ArrayLit) : Node := .value (.array content)

/-- A map. -/
@[match_pattern] abbrev map (content : MapLit) : Node := .value (.map content)

/-- The node that is a string. -/
def ofString : StringLit → Node
  | .unquoted pieces span => unquoted pieces span
  | .doubleQuoted pieces span => doubleQuoted pieces span
  | .singleQuoted content span => singleQuoted content span
  | .block content => block content

/-- The node that is a scalar. -/
def ofScalar : Scalar → Node
  | .null span => null span
  | .suspension suspend span => suspension suspend span
  | .boolean content span => boolean content span
  | .number raw span => number raw span
  | .string (.unquoted pieces span) => unquoted pieces span
  | .string (.doubleQuoted pieces span) => doubleQuoted pieces span
  | .string (.singleQuoted content span) => singleQuoted content span
  | .string (.block content) => block content

/-- The node that is a value. -/
def ofValue : Value → Node
  | .scalar content => ofScalar content
  | .imported file => imported file
  | .array content => array content
  | .map content => map content

theorem ofString_eq (s : StringLit) : ofString s = .value (.scalar (.string s)) := by
  cases s <;> rfl

theorem ofScalar_eq (s : Scalar) : ofScalar s = .value (.scalar s) := by
  cases s with
  | string content => cases content <;> rfl
  | _ => rfl

theorem ofValue_eq (v : Value) : ofValue v = .value v := by
  cases v with
  | scalar content => exact ofScalar_eq content
  | _ => rfl

/-! ### What all nodes have -/

/-- The place where a node is written. -/
def span : Node → Span
  | .comment content => content.span
  | .value content => content.span
  | .substitution content => content.span
  | .key content => content.span
  | .keyPath content => content.span
  | .edge content => content.span
  | .edgeIndex content => content.span

/-- Whether a node is a comment of either style. -/
def isComment : Node → Bool
  | .comment _ => true
  | _ => false

theorem isComment_iff (n : Node) : n.isComment = true ↔ ∃ c, n = .comment c := by
  cases n <;> simp [isComment]

/-- The line on which a node starts. -/
def firstLine (n : Node) : Nat := n.span.start.line

/-- The line on which a node ends. -/
def lastLine (n : Node) : Nat := n.span.stop.line

end Node

end DiagramText
