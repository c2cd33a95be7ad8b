import Offside.Document.Json
import Offside.Report
import Offside.Tree.Stmt

/-!
# Tokens, trees and reports as JSON

The document of a run lists its errors, says whether the run was stopped and, where they are asked
for, holds the tokens and the tree.
-/

namespace Offside.Document

open Json (natural ofOption)
open Text (Position)

def variant (name : String) (value : Json) : Json := .object [(name, value)]

def character (c : Char) : Json := .string c.toString

def position (place : Position) : Json :=
  .object
    [("line", natural place.line), ("column", natural place.column),
      ("byte_offset", natural place.offset)]

/-! ## Tokens -/

def fault (fault : Fault) : Json :=
  match fault with
  | .strayBang | .newlineInString | .unterminatedString => .string fault.name
  | .unexpectedCharacter c | .unmatchedCloser c | .unclosedBracket c | .invalidEscape c =>
      variant fault.name (character c)
  | .invalidNumber text | .integerOverflow text => variant fault.name (.string text)
  | .mismatchedBracket expected found =>
      variant fault.name
        (.object [("expected", character expected), ("found", character found)])

def payload : Payload → Json
  | .integer value => .integer value
  | .float value => .float value
  | .string content => .string content
  | .identifier name => .string name
  | .error problem => fault problem

def token (token : Token) : Json :=
  .object
    ([("kind", .string token.kind.name), ("position", position token.position)] ++
      (match token.payload? with
        | some value => [("value", payload value)]
        | none => []))

/-! ## Trees -/

def identifier (identifier : Identifier) : Json :=
  .object [("name", .string identifier.name), ("position", position identifier.position)]

def literal : Literal → Json
  | .integer value => variant "Integer" (.integer value)
  | .float value => variant "Float" (.float value)
  | .boolean value => variant "Boolean" (.boolean value)
  | .string content => variant "String" (.string content)

mutual

def expr : Expr → Json
  | .literal value => variant "Literal" (literal value)
  | .identifier name => variant "Identifier" (identifier name)
  | .unary op operand =>
      variant "Unary" (.object [("op", .string op.name), ("operand", expr operand)])
  | .binary left op right =>
      variant "Binary"
        (.object [("left", expr left), ("op", .string op.name), ("right", expr right)])
  | .call callee arguments =>
      variant "Call" (.object [("callee", expr callee), ("arguments", .list (exprs arguments))])
  | .field object name =>
      variant "FieldAccess" (.object [("object", expr object), ("field", identifier name)])
  | .subscript object index =>
      variant "Subscript" (.object [("object", expr object), ("index", expr index)])

def exprs : List Expr → List Json
  | [] => []
  | first :: rest => expr first :: exprs rest

end

def header (header : Header) : Json :=
  .object
    [("name", identifier header.name), ("parameters", .list (header.parameters.map identifier)),
      ("return_type", ofOption identifier header.returnType?)]

def branch (condition : Expr) (body : List Json) (alternative : Json) : Json :=
  .object
    [("condition", expr condition), ("then_block", .list body), ("else_block", alternative)]

mutual

def stmt : Stmt → Json
  | .expression value => variant "Expr" (variant "expression" (expr value))
  | .function decl body =>
      variant "Function" (.object [("decl", header decl), ("body", .list (stmts body))])
  | .conditional condition body rest =>
      variant "Branch" (branch condition (stmts body) (alternative rest))
  | .loop condition body =>
      variant "While" (.object [("condition", expr condition), ("body", .list (stmts body))])
  | .ret value? => variant "Return" (variant "value" (ofOption expr value?))
  | .record name fields =>
      variant "Struct"
        (.object [("name", identifier name), ("fields", .list (fields.map identifier))])

def stmts : List Stmt → List Json
  | [] => []
  | first :: rest => stmt first :: stmts rest

def alternative : Alternative → Json
  | .block body => variant "Block" (.list (stmts body))
  | .conditional condition body rest =>
      variant "Branch" (branch condition (stmts body) (alternative rest))

end

/-! ## Reports -/

def report (report : Report) : Json :=
  .object
    [("phase", .string report.phase.name), ("line", ofOption natural report.line?),
      ("column", ofOption natural report.column?), ("kind", .string report.kind),
      ("message", .string report.message)]

def run (tokens? : Option (List Token)) (block? : Option Block) (reports : List Report)
    (aborted : Bool) : Json :=
  .object
    ([("errors", .list (reports.map report)), ("aborted", .boolean aborted)] ++
      (match tokens? with
        | some tokens => [("tokens", .list (tokens.map token))]
        | none => []) ++
      (match block? with
        | some block => [("ast", .list (stmts block))]
        | none => []))

end Offside.Document
