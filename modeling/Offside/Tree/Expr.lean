import Offside.Number.Style
import Offside.Text.Position
import Offside.Text.Quoted
import Offside.Tree.Operator

/-!
# Expressions

Identifiers keep their position; all other nodes are determined by their parts.  The rendering of an
expression puts every operator and its operands in parentheses.
-/

namespace Offside

open Text (Position)

structure Identifier where
  name : String
  position : Position
deriving DecidableEq

inductive Literal where
  | integer (value : Int)
  | float (value : Number.Binary64)
  | boolean (value : Bool)
  | string (content : String)
deriving DecidableEq

inductive Expr where
  | literal (value : Literal)
  | identifier (name : Identifier)
  | unary (op : UnaryOp) (operand : Expr)
  | binary (left : Expr) (op : BinaryOp) (right : Expr)
  | call (callee : Expr) (arguments : List Expr)
  | field (object : Expr) (name : Identifier)
  | subscript (object index : Expr)

/-! ## Rendering -/

def Literal.render : Literal → String
  | .integer value => toString value
  | .float value => Number.Style.listing.write value
  | .boolean value => if value then "true" else "false"
  | .string content => Text.quoted content

def UnaryOp.sign : UnaryOp → String
  | negate => "-"
  | not => "not "

mutual

def Expr.render : Expr → String
  | .literal value => value.render
  | .identifier name => name.name
  | .unary op operand => "(" ++ op.sign ++ operand.render ++ ")"
  | .binary left op right => "(" ++ left.render ++ " " ++ op.symbol ++ " " ++ right.render ++ ")"
  | .call callee arguments =>
      callee.render ++ "(" ++ ", ".intercalate (Expr.renderAll arguments) ++ ")"
  | .field object name => object.render ++ "." ++ name.name
  | .subscript object index => object.render ++ "[" ++ index.render ++ "]"

def Expr.renderAll : List Expr → List String
  | [] => []
  | expr :: rest => expr.render :: Expr.renderAll rest

end

theorem Expr.renderAll_eq_map (exprs : List Expr) :
    Expr.renderAll exprs = exprs.map Expr.render := by
  induction exprs with
  | nil => simp [Expr.renderAll]
  | cons expr rest ih => simp [Expr.renderAll, ih]

end Offside
