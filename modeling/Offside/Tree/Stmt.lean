import Offside.Tree.Expr

/-!
# Statements

A block is a list of statements.  A conditional without an else part has the empty block as its
alternative, and an alternative that is a conditional itself is an `elif`.  The rendering of a
statement is a list of lines, indented by four blanks for each enclosing block.
-/

namespace Offside

structure Header where
  name : Identifier
  parameters : List Identifier
  returnType? : Option Identifier
deriving DecidableEq

mutual

inductive Stmt where
  | expression (value : Expr)
  | function (header : Header) (body : List Stmt)
  | conditional (condition : Expr) (body : List Stmt) (alternative : Alternative)
  | loop (condition : Expr) (body : List Stmt)
  | ret (value? : Option Expr)
  | record (name : Identifier) (fields : List Identifier)

inductive Alternative where
  | block (body : List Stmt)
  | conditional (condition : Expr) (body : List Stmt) (alternative : Alternative)

end

abbrev Block := List Stmt

def Alternative.isEmpty : Alternative → Bool
  | .block body => body.isEmpty
  | .conditional .. => false

/-! ## Rendering -/

def Header.render (header : Header) : String :=
  "func " ++ header.name.name ++ "(" ++ ", ".intercalate (header.parameters.map (·.name)) ++ ")" ++
    (match header.returnType? with
      | some type => ": " ++ type.name
      | none => "") ++ " ="

def margin (depth : Nat) : String := String.ofList (List.replicate (4 * depth) ' ')

mutual

def Stmt.lines (depth : Nat) : Stmt → List String
  | .expression value => [margin depth ++ value.render]
  | .function header body => (margin depth ++ header.render) :: Block.lines (depth + 1) body
  | .conditional condition body alternative =>
      (margin depth ++ "if " ++ condition.render ++ ":") ::
        (Block.lines (depth + 1) body ++ Alternative.lines depth alternative)
  | .loop condition body =>
      (margin depth ++ "while " ++ condition.render ++ ":") :: Block.lines (depth + 1) body
  | .ret (some value) => [margin depth ++ "return " ++ value.render]
  | .ret none => [margin depth ++ "return"]
  | .record name fields =>
      (margin depth ++ "struct " ++ name.name ++ ":") ::
        fields.map fun field => margin (depth + 1) ++ field.name

def Block.lines (depth : Nat) : List Stmt → List String
  | [] => []
  | stmt :: rest => Stmt.lines depth stmt ++ Block.lines depth rest

def Alternative.lines (depth : Nat) : Alternative → List String
  | .block [] => []
  | .block (first :: rest) =>
      (margin depth ++ "else:") :: (Stmt.lines (depth + 1) first ++ Block.lines (depth + 1) rest)
  | .conditional condition body alternative =>
      (margin depth ++ "elif " ++ condition.render ++ ":") ::
        (Block.lines (depth + 1) body ++ Alternative.lines depth alternative)

end

def unlines (lines : List String) : String := String.join (lines.map (· ++ "\n"))

def Stmt.render (stmt : Stmt) : String := unlines (stmt.lines 0)

def Block.render (block : Block) : String := unlines (Block.lines 0 block)

end Offside
