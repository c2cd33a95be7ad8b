import Offside.Parse.State

/-!
# Parsing expressions

Each level of precedence reads an operand of the next tighter level and, if one of its own operators
follows, the rest of the expression at the same level: all binary operators associate to the right.
A stray `!` is recorded as an error and read as `not`.
-/

namespace Offside.Parse.Parser

/-! ## Names and literals -/

def identifier : Parser Identifier := do
  let token ← expect .identifier
  match token.payload? with
  | some (.identifier name) => return ⟨name, token.position⟩
  | _ => throw (.unexpected [.identifier] token)

def literalOf? (kind : TokenKind) (token : Token) : Option Literal :=
  if token.kind = kind then
    match kind, token.payload? with
    | .float, some (.float value) => some (.float value)
    | .integer, some (.integer value) => some (.integer value)
    | .string, some (.string content) => some (.string content)
    | .trueKeyword, _ => some (.boolean true)
    | .falseKeyword, _ => some (.boolean false)
    | _, _ => none
  else none

def literal? (kinds : List TokenKind) : Parser (Option Expr) := do
  let token ← currentToken
  match kinds.findSome? fun kind => literalOf? kind token with
  | some value =>
      let _ ← advance
      return some (.literal value)
  | none => return none

def float? : Parser (Option Expr) := literal? [.float]

def integer? : Parser (Option Expr) := literal? [.integer]

def boolean? : Parser (Option Expr) := literal? [.trueKeyword, .falseKeyword]

def string? : Parser (Option Expr) := literal? [.string]

/-! ## The levels of precedence -/

/-- Notices a prefix operator in front of an operand.  A stray `!` is one, but an error too. -/
def signAhead? : Parser (Option UnaryOp) := do
  let state ← get
  if state.current.kind = .minus then return some .negate
  else if state.current.fault? = some .strayBang then
    let error : Error := ⟨.lexical .strayBang, state.current.position⟩
    if state.config.recover then
      record error
      return some .not
    else throw error
  else return none

mutual

def expression : Nat → Parser Expr
  | 0 => exhausted
  | fuel + 1 => nested (level fuel .assignment)

/-- An expression whose operators are of the given level or tighter. -/
def level : Nat → Level → Parser Expr
  | 0, _ => exhausted
  | fuel + 1, .atom => atom fuel
  | fuel + 1, .suffix => do suffixes fuel (← level fuel .atom)
  | fuel + 1, .negation => do
      if (← currentKind) = .notKeyword then
        let _ ← advance
        return .unary .not (← nested (level fuel .negation))
      else level fuel .comparison
  | fuel + 1, .sign => do
      match ← signAhead? with
      | some op =>
          let _ ← advance
          return .unary op (← nested (level fuel .sign))
      | none => level fuel .power
  | fuel + 1, here => do
      let left ← level fuel here.tighter
      match here.operator? (← currentKind) with
      | some op =>
          let _ ← advance
          return .binary left op (← level fuel here.right)
      | none => return left

def suffixes : Nat → Expr → Parser Expr
  | 0, _ => exhausted
  | fuel + 1, object => do
      match ← currentKind with
      | .leftParen =>
          let _ ← advance
          let arguments ← arguments fuel
          let _ ← expect .rightParen
          suffixes fuel (.call object arguments)
      | .dot =>
          let _ ← advance
          suffixes fuel (.field object (← identifier))
      | .leftSquare =>
          let _ ← advance
          let index ← expression fuel
          let _ ← expect .rightSquare
          suffixes fuel (.subscript object index)
      | _ => return object

def arguments : Nat → Parser (List Expr)
  | 0 => exhausted
  | fuel + 1 => do
      if (← currentKind) = .rightParen then return []
      else
        let first ← expression fuel
        return first :: (← moreArguments fuel)

def moreArguments : Nat → Parser (List Expr)
  | 0 => exhausted
  | fuel + 1 => do
      if (← currentKind) = .comma then
        let _ ← advance
        let argument ← expression fuel
        return argument :: (← moreArguments fuel)
      else return []

def atom : Nat → Parser Expr
  | 0 => exhausted
  | fuel + 1 => do
      match ← literal? [.float, .integer, .trueKeyword, .falseKeyword, .string] with
      | some value => return value
      | none =>
          if (← currentKind) = .identifier then return .identifier (← identifier)
          else
            match ← parenthesized? fuel with
            | some inner => return inner
            | none => throw (.expectedExpression (← get).current)

def parenthesized? : Nat → Parser (Option Expr)
  | 0 => exhausted
  | fuel + 1 => do
      if (← currentKind) = .leftParen then
        let _ ← advance
        let inner ← expression fuel
        let _ ← expect .rightParen
        return some inner
      else return none

end

end Offside.Parse.Parser
