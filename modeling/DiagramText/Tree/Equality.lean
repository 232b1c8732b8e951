import DiagramText.Tree.Node

/-!
# Equality of trees

Two trees are equal when they have the same structure, the same texts, the same
ways of writing strings and the same spans.  Trees are built through lists, so
equality is decided by a family of functions that go down both trees at once, one
for each type and one for each kind of list.

**The functions decide equality** (`StringLit.same_iff`, `Node.same_iff` and their
siblings), which makes it decidable on every type of the tree.
-/

namespace DiagramText

/-! ## Strings and key paths -/

mutual

/-- Whether two pieces are equal. -/
def Piece.same : Piece → Piece → Bool
  | .text s, .text t => s == t
  | .substitution r, .substitution r' => r.same r'
  | _, _ => false

/-- Whether two substitutions are equal. -/
def Substitution.same : Substitution → Substitution → Bool
  | ⟨spread, path, span⟩, ⟨spread', path', span'⟩ =>
      spread == spread' && path.same path' && span == span'

/-- Whether two key paths are equal. -/
def KeyPath.same : KeyPath → KeyPath → Bool
  | ⟨segments, span⟩, ⟨segments', span'⟩ =>
      StringLit.sameAll segments segments' && span == span'

/-- Whether two strings are equal. -/
def StringLit.same : StringLit → StringLit → Bool
  | .unquoted pieces span, .unquoted pieces' span' =>
      Piece.sameAll pieces pieces' && span == span'
  | .doubleQuoted pieces span, .doubleQuoted pieces' span' =>
      Piece.sameAll pieces pieces' && span == span'
  | .singleQuoted content span, .singleQuoted content' span' =>
      content == content' && span == span'
  | .block content, .block content' => content == content'
  | _, _ => false

/-- Whether two rows of pieces are equal. -/
def Piece.sameAll : List Piece → List Piece → Bool
  | [], [] => true
  | piece :: rest, piece' :: rest' => piece.same piece' && Piece.sameAll rest rest'
  | _, _ => false

/-- Whether two rows of segments are equal. -/
def StringLit.sameAll : List StringLit → List StringLit → Bool
  | [], [] => true
  | segment :: rest, segment' :: rest' =>
      segment.same segment' && StringLit.sameAll rest rest'
  | _, _ => false

end

mutual

theorem Piece.same_iff : ∀ a b : Piece, a.same b = true ↔ a = b
  | .text s, b => by cases b <;> simp [Piece.same]
  | .substitution r, b => by
      cases b with
      | text t => simp [Piece.same]
      | substitution r' =>
          have h := Substitution.same_iff r r'
          simp [Piece.same, h]

theorem Substitution.same_iff : ∀ a b : Substitution, a.same b = true ↔ a = b
  | ⟨spread, path, span⟩, ⟨spread', path', span'⟩ => by
      have h := KeyPath.same_iff path path'
      simp [Substitution.same, h, and_assoc]

theorem KeyPath.same_iff : ∀ a b : KeyPath, a.same b = true ↔ a = b
  | ⟨segments, span⟩, ⟨segments', span'⟩ => by
      have h := StringLit.sameAll_iff segments segments'
      simp [KeyPath.same, h]

/-- Strings are the same exactly when they are equal. -/
theorem StringLit.same_iff : ∀ a b : StringLit, a.same b = true ↔ a = b
  | .unquoted pieces span, b => by
      cases b with
      | unquoted pieces' span' =>
          have h := Piece.sameAll_iff pieces pieces'
          simp [StringLit.same, h]
      | _ => simp [StringLit.same]
  | .doubleQuoted pieces span, b => by
      cases b with
      | doubleQuoted pieces' span' =>
          have h := Piece.sameAll_iff pieces pieces'
          simp [StringLit.same, h]
      | _ => simp [StringLit.same]
  | .singleQuoted content span, b => by cases b <;> simp [StringLit.same]
  | .block content, b => by cases b <;> simp [StringLit.same]

theorem Piece.sameAll_iff : ∀ as bs : List Piece, Piece.sameAll as bs = true ↔ as = bs
  | [], bs => by cases bs <;> simp [Piece.sameAll]
  | piece :: rest, bs => by
      cases bs with
      | nil => simp [Piece.sameAll]
      | cons piece' rest' =>
          have hfirst := Piece.same_iff piece piece'
          have hrest := Piece.sameAll_iff rest rest'
          simp [Piece.sameAll, hfirst, hrest]

theorem StringLit.sameAll_iff :
    ∀ as bs : List StringLit, StringLit.sameAll as bs = true ↔ as = bs
  | [], bs => by cases bs <;> simp [StringLit.sameAll]
  | segment :: rest, bs => by
      cases bs with
      | nil => simp [StringLit.sameAll]
      | cons segment' rest' =>
          have hfirst := StringLit.same_iff segment segment'
          have hrest := StringLit.sameAll_iff rest rest'
          simp [StringLit.sameAll, hfirst, hrest]

end

instance : DecidableEq Piece := fun a b => decidable_of_iff _ (Piece.same_iff a b)

instance : DecidableEq Substitution := fun a b =>
  decidable_of_iff _ (Substitution.same_iff a b)

instance : DecidableEq KeyPath := fun a b => decidable_of_iff _ (KeyPath.same_iff a b)

instance : DecidableEq StringLit := fun a b => decidable_of_iff _ (StringLit.same_iff a b)

deriving instance DecidableEq for Scalar

deriving instance DecidableEq for Import

deriving instance DecidableEq for Edge

/-! ## Values, keys and nodes -/

mutual

/-- Whether two values are equal. -/
def Value.same : Value → Value → Bool
  | .scalar content, .scalar content' => content == content'
  | .imported file, .imported file' => file == file'
  | .array content, .array content' => content.same content'
  | .map content, .map content' => content.same content'
  | _, _ => false

/-- Whether two arrays are equal. -/
def ArrayLit.same : ArrayLit → ArrayLit → Bool
  | ⟨nodes, span⟩, ⟨nodes', span'⟩ => Node.sameAll nodes nodes' && span == span'

/-- Whether two maps are equal. -/
def MapLit.same : MapLit → MapLit → Bool
  | ⟨nodes, span, isFile⟩, ⟨nodes', span', isFile'⟩ =>
      Node.sameAll nodes nodes' && span == span' && isFile == isFile'

/-- Whether two keys are equal. -/
def Key.same : Key → Key → Bool
  | ⟨marker, path, edges, index, edgePath, primary, value, span⟩,
    ⟨marker', path', edges', index', edgePath', primary', value', span'⟩ =>
      marker == marker' && path == path' && edges == edges' && index == index' &&
        edgePath == edgePath' && primary == primary' && Value.sameOption value value' &&
        span == span'

/-- Whether two values are equal, or both are missing. -/
def Value.sameOption : Option Value → Option Value → Bool
  | none, none => true
  | some v, some v' => v.same v'
  | _, _ => false

/-- Whether two nodes are equal. -/
def Node.same : Node → Node → Bool
  | .comment content, .comment content' => content == content'
  | .value content, .value content' => content.same content'
  | .substitution content, .substitution content' => content == content'
  | .key content, .key content' => content.same content'
  | .keyPath content, .keyPath content' => content == content'
  | .edge content, .edge content' => content == content'
  | .edgeIndex content, .edgeIndex content' => content == content'
  | _, _ => false

/-- Whether two rows of nodes are equal. -/
def Node.sameAll : List Node → List Node → Bool
  | [], [] => true
  | node :: rest, node' :: rest' => node.same node' && Node.sameAll rest rest'
  | _, _ => false

end

mutual

theorem Value.same_iff : ∀ a b : Value, a.same b = true ↔ a = b
  | .scalar content, b => by cases b <;> simp [Value.same]
  | .imported file, b => by cases b <;> simp [Value.same]
  | .array content, b => by
      cases b with
      | array content' =>
          have h := ArrayLit.same_iff content content'
          simp [Value.same, h]
      | _ => simp [Value.same]
  | .map content, b => by
      cases b with
      | map content' =>
          have h := MapLit.same_iff content content'
          simp [Value.same, h]
      | _ => simp [Value.same]

theorem ArrayLit.same_iff : ∀ a b : ArrayLit, a.same b = true ↔ a = b
  | ⟨nodes, span⟩, ⟨nodes', span'⟩ => by
      have h := Node.sameAll_iff nodes nodes'
      simp [ArrayLit.same, h]

theorem MapLit.same_iff : ∀ a b : MapLit, a.same b = true ↔ a = b
  | ⟨nodes, span, isFile⟩, ⟨nodes', span', isFile'⟩ => by
      have h := Node.sameAll_iff nodes nodes'
      simp [MapLit.same, h, and_assoc]

theorem Key.same_iff : ∀ a b : Key, a.same b = true ↔ a = b
  | ⟨marker, path, edges, index, edgePath, primary, value, span⟩,
    ⟨marker', path', edges', index', edgePath', primary', value', span'⟩ => by
      have h := Value.sameOption_iff value value'
      simp [Key.same, h, and_assoc]

theorem Value.sameOption_iff : ∀ a b : Option Value, Value.sameOption a b = true ↔ a = b
  | none, b => by cases b <;> simp [Value.sameOption]
  | some v, b => by
      cases b with
      | none => simp [Value.sameOption]
      | some v' =>
          have h := Value.same_iff v v'
          simp [Value.sameOption, h]

/-- Nodes are the same exactly when they are equal. -/
theorem Node.same_iff : ∀ a b : Node, a.same b = true ↔ a = b
  | .comment content, b => by cases b <;> simp [Node.same]
  | .value content, b => by
      cases b with
      | value content' =>
          have h := Value.same_iff content content'
          simp [Node.same, h]
      | _ => simp [Node.same]
  | .substitution content, b => by cases b <;> simp [Node.same]
  | .key content, b => by
      cases b with
      | key content' =>
          have h := Key.same_iff content content'
          simp [Node.same, h]
      | _ => simp [Node.same]
  | .keyPath content, b => by cases b <;> simp [Node.same]
  | .edge content, b => by cases b <;> simp [Node.same]
  | .edgeIndex content, b => by cases b <;> simp [Node.same]

theorem Node.sameAll_iff : ∀ as bs : List Node, Node.sameAll as bs = true ↔ as = bs
  | [], bs => by cases bs <;> simp [Node.sameAll]
  | node :: rest, bs => by
      cases bs with
      | nil => simp [Node.sameAll]
      | cons node' rest' =>
          have hfirst := Node.same_iff node node'
          have hrest := Node.sameAll_iff rest rest'
          simp [Node.sameAll, hfirst, hrest]

end

instance : DecidableEq Value := fun a b => decidable_of_iff _ (Value.same_iff a b)

instance : DecidableEq ArrayLit := fun a b => decidable_of_iff _ (ArrayLit.same_iff a b)

instance : DecidableEq MapLit := fun a b => decidable_of_iff _ (MapLit.same_iff a b)

instance : DecidableEq Key := fun a b => decidable_of_iff _ (Key.same_iff a b)

instance : DecidableEq Node := fun a b => decidable_of_iff _ (Node.same_iff a b)

end DiagramText
