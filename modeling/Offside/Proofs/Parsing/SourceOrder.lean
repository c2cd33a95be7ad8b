import Offside.Proofs.Parsing.Leaves

/-!
# Leaves in the order of the source

The names and literals of a tree, taken together, are its leaves.  They are listed as the source has
them: a header in front of its body, an operand on the left in front of the one on the right, and what
is called, or looked into, in front of its arguments, its field or its index.  A token stands for one
leaf or for none.
-/

namespace Offside

inductive Leaf where
  | name (name : Identifier)
  | literal (value : Literal)
deriving DecidableEq

namespace Leaf

def name? : Leaf → Option Identifier
  | .name identifier => some identifier
  | .literal _ => none

@[simp] theorem name?_name (identifier : Identifier) : (name identifier).name? = some identifier := rfl

@[simp] theorem name?_literal (value : Literal) : (literal value).name? = none := rfl

end Leaf

/-- The leaf that a token stands for, by its kind and its payload. -/
def Token.leaf? (token : Token) : Option Leaf :=
  match token.kind, token.payload? with
  | .identifier, some (.identifier name) => some (.name ⟨name, token.position⟩)
  | .integer, some (.integer value) => some (.literal (.integer value))
  | .float, some (.float value) => some (.literal (.float value))
  | .string, some (.string content) => some (.literal (.string content))
  | .trueKeyword, _ => some (.literal (.boolean true))
  | .falseKeyword, _ => some (.literal (.boolean false))
  | _, _ => none

theorem Token.leaf?_of_name {token : Token} {name : String} (hkind : token.kind = .identifier)
    (hpayload : token.payload? = some (.identifier name)) :
    token.leaf? = some (.name ⟨name, token.position⟩) := by
  unfold leaf?
  rw [hkind, hpayload]

theorem Token.leaf?_of_literalOf? {token : Token} {kind : TokenKind} {value : Literal}
    (h : Parse.Parser.literalOf? kind token = some value) : token.leaf? = some (.literal value) := by
  unfold Parse.Parser.literalOf? at h
  split at h
  · rename_i hkind
    unfold leaf?
    rw [hkind]
    split at h <;> cases h <;> simp [*]
  · cases h

theorem Token.eq_name_of_leaf? {token : Token} {name : Identifier}
    (h : token.leaf? = some (.name name)) :
    token.kind = .identifier ∧ token.payload? = some (.identifier name.name) ∧
      token.position = name.position := by
  unfold leaf? at h
  split at h <;> cases h
  exact ⟨‹_›, ‹_›, rfl⟩

/-! ## Leaves of trees -/

mutual

def Expr.leaves : Expr → List Leaf
  | .literal value => [.literal value]
  | .identifier name => [.name name]
  | .unary _ operand => operand.leaves
  | .binary left _ right => left.leaves ++ right.leaves
  | .call callee arguments => callee.leaves ++ Expr.leavesAll arguments
  | .field object name => object.leaves ++ [.name name]
  | .subscript object index => object.leaves ++ index.leaves

def Expr.leavesAll : List Expr → List Leaf
  | [] => []
  | expr :: rest => expr.leaves ++ Expr.leavesAll rest

end

attribute [simp] Expr.leaves Expr.leavesAll

def Header.leaves (header : Header) : List Leaf := header.names.map .name

mutual

def Stmt.leaves : Stmt → List Leaf
  | .expression value => value.leaves
  | .function header body => header.leaves ++ Block.leaves body
  | .conditional condition body alternative =>
      condition.leaves ++ (Block.leaves body ++ alternative.leaves)
  | .loop condition body => condition.leaves ++ Block.leaves body
  | .ret (some value) => value.leaves
  | .ret none => []
  | .record name fields => .name name :: fields.map .name

def Block.leaves : List Stmt → List Leaf
  | [] => []
  | stmt :: rest => stmt.leaves ++ Block.leaves rest

def Alternative.leaves : Alternative → List Leaf
  | .block body => Block.leaves body
  | .conditional condition body alternative =>
      condition.leaves ++ (Block.leaves body ++ alternative.leaves)

end

attribute [simp] Stmt.leaves Block.leaves Alternative.leaves

/-! ## Names among the leaves -/

theorem filterMap_name?_map (names : List Identifier) :
    (names.map Leaf.name).filterMap Leaf.name? = names := by
  simp [List.filterMap_map, Function.comp_def]

mutual

theorem Expr.filterMap_leaves : ∀ expr : Expr, expr.leaves.filterMap Leaf.name? = expr.names
  | .literal _ => by simp
  | .identifier _ => by simp
  | .unary _ operand => by simp [filterMap_leaves operand]
  | .binary left _ right => by simp [filterMap_leaves left, filterMap_leaves right]
  | .call callee arguments => by simp [filterMap_leaves callee, filterMap_leavesAll arguments]
  | .field object _ => by simp [filterMap_leaves object]
  | .subscript object index => by simp [filterMap_leaves object, filterMap_leaves index]

theorem Expr.filterMap_leavesAll : ∀ exprs : List Expr,
    (Expr.leavesAll exprs).filterMap Leaf.name? = Expr.namesAll exprs
  | [] => by simp
  | expr :: rest => by simp [filterMap_leaves expr, filterMap_leavesAll rest]

end

theorem Header.filterMap_leaves (header : Header) :
    header.leaves.filterMap Leaf.name? = header.names :=
  filterMap_name?_map header.names

mutual

theorem Stmt.filterMap_leaves : ∀ stmt : Stmt, stmt.leaves.filterMap Leaf.name? = stmt.names
  | .expression value => by simp [value.filterMap_leaves]
  | .function header body => by simp [header.filterMap_leaves, Block.filterMap_leaves body]
  | .conditional condition body alternative => by
      simp [condition.filterMap_leaves, Block.filterMap_leaves body,
        Alternative.filterMap_leaves alternative]
  | .loop condition body => by simp [condition.filterMap_leaves, Block.filterMap_leaves body]
  | .ret (some value) => by simp [value.filterMap_leaves]
  | .ret none => by simp
  | .record _ fields => by simp [filterMap_name?_map fields]

theorem Block.filterMap_leaves : ∀ block : List Stmt,
    (Block.leaves block).filterMap Leaf.name? = Block.names block
  | [] => by simp
  | stmt :: rest => by simp [Stmt.filterMap_leaves stmt, Block.filterMap_leaves rest]

theorem Alternative.filterMap_leaves : ∀ alternative : Alternative,
    alternative.leaves.filterMap Leaf.name? = alternative.names
  | .block body => by simp [Block.filterMap_leaves body]
  | .conditional condition body alternative => by
      simp [condition.filterMap_leaves, Block.filterMap_leaves body,
        Alternative.filterMap_leaves alternative]

end

end Offside
