import Offside.Parse.Expression

/-!
# Parsing statements

A block is read statement by statement up to its end.  A statement that fails is recorded and
skipped, so that the other statements of its block and of the blocks around it are still read.
-/

namespace Offside.Parse.Parser

/-! ## Headers -/

def moreParameters : Nat → Parser (List Identifier)
  | 0 => exhausted
  | fuel + 1 => do
      if (← currentKind) = .comma then
        let _ ← advance
        let parameter ← identifier
        return parameter :: (← moreParameters fuel)
      else return []

def parameters (fuel : Nat) : Parser (List Identifier) := do
  let first ← identifier
  return first :: (← moreParameters fuel)

/-- The parameters between the parentheses of a header, of which there may be none. -/
def optionalParameters (fuel : Nat) : Parser (List Identifier) := do
  if (← currentKind) = .identifier then parameters fuel else return []

/-- The header of a function.  A colon belongs to a return type exactly if a name follows it. -/
def header (fuel : Nat) : Parser Header := do
  let _ ← expect .funcKeyword
  let name ← identifier
  let _ ← expect .leftParen
  let parameters ← optionalParameters fuel
  let _ ← expect .rightParen
  if (← currentKind) = .colon && (← nextKind) = .identifier then
    let _ ← advance
    return ⟨name, parameters, some (← identifier)⟩
  else return ⟨name, parameters, none⟩

def fields : Nat → Parser (List Identifier)
  | 0 => exhausted
  | fuel + 1 => do
      if (← currentKind) = .identifier then
        let field ← identifier
        let _ ← expect .newline
        return field :: (← fields fuel)
      else return []

/-! ## Simple statements -/

def expressionStatement (fuel : Nat) : Parser Stmt := do
  let value ← expression fuel
  let _ ← expect .newline
  return .expression value

def returnValue? (fuel : Nat) : Parser (Option Expr) := do
  if (← currentKind) = .newline then return none else return some (← expression fuel)

def returnStatement (fuel : Nat) : Parser Stmt := do
  let _ ← expect .returnKeyword
  let value? ← returnValue? fuel
  let _ ← expect .newline
  return .ret value?

def recordStatement (fuel : Nat) : Parser Stmt := do
  let _ ← expect .structKeyword
  let name ← identifier
  let _ ← expect .colon
  let _ ← expect .newline
  let _ ← expect .indent
  let fields ← fields fuel
  let _ ← expect .dedent
  return .record name fields

/-! ## Blocks -/

mutual

/-- The statements up to the end of the block, without those that fail. -/
def statements : Nat → Parser Block
  | 0 => exhausted
  | fuel + 1 => do
      let state ← get
      if state.current.kind = .dedent || state.current.kind = .eof then return []
      else
        match ← attempt (statement fuel) with
        | .ok stmt => return stmt :: (← statements fuel)
        | .error error =>
            recover fuel error state.consumed state.openBlocks
            statements fuel

def statement : Nat → Parser Stmt
  | 0 => exhausted
  | fuel + 1 => do
      let token ← currentToken
      modify fun state => state.note (.began token.kind token.position.line)
      match token.kind with
      | .funcKeyword => function fuel
      | .ifKeyword => conditional fuel
      | .whileKeyword => loop fuel
      | .returnKeyword => returnStatement fuel
      | .structKeyword => recordStatement fuel
      | _ => expressionStatement fuel

def block : Nat → Parser Block
  | 0 => exhausted
  | fuel + 1 => do
      let _ ← expect .indent
      let body ← nested (statements fuel)
      let _ ← expect .dedent
      return body

def function : Nat → Parser Stmt
  | 0 => exhausted
  | fuel + 1 => do
      let header ← header fuel
      let _ ← expectOneOf [.assign, .colon]
      let _ ← expect .newline
      return .function header (← block fuel)

def conditional : Nat → Parser Stmt
  | 0 => exhausted
  | fuel + 1 => do
      let _ ← expect .ifKeyword
      let (condition, body, alternative) ← branch fuel
      return .conditional condition body alternative

def branch : Nat → Parser (Expr × Block × Alternative)
  | 0 => exhausted
  | fuel + 1 => do
      let condition ← expression fuel
      let _ ← expect .colon
      let _ ← expect .newline
      let body ← block fuel
      match ← currentKind with
      | .elifKeyword =>
          let _ ← advance
          let (inner, innerBody, alternative) ← branch fuel
          return (condition, body, .conditional inner innerBody alternative)
      | .elseKeyword =>
          let _ ← advance
          let _ ← expect .colon
          let _ ← expect .newline
          return (condition, body, .block (← block fuel))
      | _ => return (condition, body, .block [])

def loop : Nat → Parser Stmt
  | 0 => exhausted
  | fuel + 1 => do
      let _ ← expect .whileKeyword
      let condition ← expression fuel
      let _ ← expect .colon
      let _ ← expect .newline
      return .loop condition (← block fuel)

end

/-- A whole program: the block that the structure of the file opens and closes. -/
def program (fuel : Nat) : Parser Block := do
  let token ← currentToken
  if token.kind = .indent then
    let _ ← advance
    let block ← statements fuel
    let _ ← expect .dedent
    let _ ← expect .eof
    modify fun state => state.note (.finished block.length state.errors.length)
    return block
  else
    let error := Error.unexpected [.indent] token
    modify fun state => state.note (.startMissing error)
    throw error

end Offside.Parse.Parser
