import Offside.Proofs.Grammar.Bare
import Offside.Proofs.Scanning.Lexeme

/-!
# Trees that can be read back

A tree is legible if its rendering has one reading: names are words, integers have no sign, no float
is rounded, strings need no code point, and every block that is rendered has a statement.  Positions
do not matter to the rendering.
-/

namespace Offside

open Scan (Word Quotable)

/-! ## Literals -/

/-- A literal whose rendering does not depend on digits of a fraction or on code points. -/
def Literal.Exact : Literal → Prop
  | .integer _ | .boolean _ => True
  | .float _ => False
  | .string content => ∀ c ∈ content.toList, Quotable c

instance : DecidablePred Literal.Exact
  | .integer _ | .boolean _ => isTrue trivial
  | .float _ => isFalse id
  | .string content => List.decidableBAll Quotable content.toList

def Literal.InRange : Literal → Prop
  | .integer value => 0 ≤ value ∧ value < Scan.integerLimit
  | .float _ | .boolean _ | .string _ => True

mutual

/-- The literals of an expression, from left to right. -/
def Expr.literals : Expr → List Literal
  | .literal value => [value]
  | .identifier _ => []
  | .unary _ operand => operand.literals
  | .binary left _ right => left.literals ++ right.literals
  | .call callee arguments => callee.literals ++ Expr.literalsAll arguments
  | .field object _ => object.literals
  | .subscript object index => object.literals ++ index.literals

def Expr.literalsAll : List Expr → List Literal
  | [] => []
  | expr :: rest => expr.literals ++ Expr.literalsAll rest

end

mutual

def Stmt.literals : Stmt → List Literal
  | .expression value => value.literals
  | .function _ body => Block.literals body
  | .conditional condition body alternative =>
      condition.literals ++ (Block.literals body ++ alternative.literals)
  | .loop condition body => condition.literals ++ Block.literals body
  | .ret (some value) => value.literals
  | .ret none => []
  | .record _ _ => []

def Block.literals : List Stmt → List Literal
  | [] => []
  | stmt :: rest => stmt.literals ++ Block.literals rest

def Alternative.literals : Alternative → List Literal
  | .block body => Block.literals body
  | .conditional condition body alternative =>
      condition.literals ++ (Block.literals body ++ alternative.literals)

end

/-! ## Legible trees -/

structure Literal.Legible (value : Literal) : Prop where
  exact : value.Exact
  inRange : value.InRange

def Identifier.Legible (name : Identifier) : Prop := Word name.name

structure Header.Legible (header : Header) : Prop where
  name : header.name.Legible
  parameters : ∀ parameter ∈ header.parameters, parameter.Legible
  returnType : ∀ type ∈ header.returnType?, type.Legible

mutual

def Expr.Legible : Expr → Prop
  | .literal value => value.Legible
  | .identifier name => name.Legible
  | .unary _ operand => operand.Legible
  | .binary left _ right => left.Legible ∧ right.Legible
  | .call callee arguments => callee.Legible ∧ Expr.LegibleAll arguments
  | .field object name => object.Legible ∧ name.Legible
  | .subscript object index => object.Legible ∧ index.Legible

def Expr.LegibleAll : List Expr → Prop
  | [] => True
  | expr :: rest => expr.Legible ∧ Expr.LegibleAll rest

end

mutual

def Stmt.Legible : Stmt → Prop
  | .expression value => value.Legible
  | .function header body => header.Legible ∧ body ≠ [] ∧ Block.Legible body
  | .conditional condition body alternative =>
      condition.Legible ∧ body ≠ [] ∧ Block.Legible body ∧ alternative.Legible
  | .loop condition body => condition.Legible ∧ body ≠ [] ∧ Block.Legible body
  | .ret (some value) => value.Legible
  | .ret none => True
  | .record name fields => name.Legible ∧ fields ≠ [] ∧ ∀ field ∈ fields, field.Legible

def Block.Legible : List Stmt → Prop
  | [] => True
  | stmt :: rest => stmt.Legible ∧ Block.Legible rest

def Alternative.Legible : Alternative → Prop
  | .block body => Block.Legible body
  | .conditional condition body alternative =>
      condition.Legible ∧ body ≠ [] ∧ Block.Legible body ∧ alternative.Legible

end

/-! ## Positions -/

theorem Identifier.name_bare (name : Identifier) : name.bare.name = name.name := rfl

mutual

theorem Expr.render_bare : ∀ expr : Expr, expr.bare.render = expr.render
  | .literal _ => by simp only [Expr.bare]
  | .identifier _ => by simp only [Expr.bare, Expr.render, Identifier.name_bare]
  | .unary _ operand => by simp only [Expr.bare, Expr.render, render_bare operand]
  | .binary left _ right => by
      simp only [Expr.bare, Expr.render, render_bare left, render_bare right]
  | .call callee arguments => by
      simp only [Expr.bare, Expr.render, render_bare callee, renderAll_bareAll arguments]
  | .field object _ => by
      simp only [Expr.bare, Expr.render, render_bare object, Identifier.name_bare]
  | .subscript object index => by
      simp only [Expr.bare, Expr.render, render_bare object, render_bare index]

theorem Expr.renderAll_bareAll : ∀ exprs : List Expr,
    Expr.renderAll (Expr.bareAll exprs) = Expr.renderAll exprs
  | [] => by simp only [Expr.bareAll]
  | expr :: rest => by
      simp only [Expr.bareAll, Expr.renderAll, render_bare expr, renderAll_bareAll rest]

end

theorem Header.render_bare (header : Header) : header.bare.render = header.render := by
  obtain ⟨name, parameters, returnType?⟩ := header
  have hparameters : (parameters.map Identifier.bare).map (·.name) = parameters.map (·.name) := by
    simp [Function.comp_def, Identifier.name_bare]
  cases returnType? <;>
    simp only [Header.bare, Header.render, hparameters, Identifier.name_bare, Option.map_some,
      Option.map_none]

mutual

theorem Stmt.lines_bare (depth : Nat) : ∀ stmt : Stmt, stmt.bare.lines depth = stmt.lines depth
  | .expression value => by simp only [Stmt.bare, Stmt.lines, Expr.render_bare]
  | .function header body => by
      simp only [Stmt.bare, Stmt.lines, Header.render_bare, Block.lines_bare _ body]
  | .conditional condition body alternative => by
      simp only [Stmt.bare, Stmt.lines, Expr.render_bare, Block.lines_bare _ body,
        Alternative.lines_bare _ alternative]
  | .loop condition body => by
      simp only [Stmt.bare, Stmt.lines, Expr.render_bare, Block.lines_bare _ body]
  | .ret (some value) => by simp only [Stmt.bare, Stmt.lines, Option.map_some, Expr.render_bare]
  | .ret none => by simp only [Stmt.bare, Stmt.lines, Option.map_none]
  | .record name fields => by
      simp only [Stmt.bare, Stmt.lines, List.map_map, Function.comp_def, Identifier.name_bare]

theorem Block.lines_bare (depth : Nat) : ∀ block : List Stmt,
    Block.lines depth (Block.bare block) = Block.lines depth block
  | [] => by simp only [Block.bare]
  | stmt :: rest => by
      simp only [Block.bare, Block.lines, Stmt.lines_bare _ stmt, Block.lines_bare _ rest]

theorem Alternative.lines_bare (depth : Nat) : ∀ alternative : Alternative,
    alternative.bare.lines depth = alternative.lines depth
  | .block [] => by simp only [Alternative.bare, Block.bare]
  | .block (first :: rest) => by
      simp only [Alternative.bare, Block.bare, Alternative.lines, Stmt.lines_bare _ first,
        Block.lines_bare _ rest]
  | .conditional condition body alternative => by
      simp only [Alternative.bare, Alternative.lines, Expr.render_bare, Block.lines_bare _ body,
        Alternative.lines_bare _ alternative]

end

theorem Block.render_eq_of_bare {block block' : Block} (h : Block.bare block' = Block.bare block) :
    Block.render block' = Block.render block := by
  rw [Block.render, ← Block.lines_bare, h, Block.lines_bare, Block.render]

end Offside
