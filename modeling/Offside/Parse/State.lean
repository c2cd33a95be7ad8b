import Offside.Parse.Error
import Offside.Scan.Lexer
import Offside.Tree.Stmt

/-!
# The state of a parser

A parser sees two tokens and pulls the others from a token stream when it needs them; past the end
token it pulls none.  It counts what it has consumed, how many blocks are open and how deep the
grammar is nested, and it keeps the errors that it has recorded.  The journal tells what happened,
newest first.

Grammar functions take an amount of fuel that bounds their recursion.  `State.fuel` is a bound that
the tokens to come cannot use up.
-/

namespace Offside.Parse

open Scan (TokenStream)
open Text (Position)

structure Config where
  /-- Whether to go on behind a broken statement. -/
  recover : Bool
  /-- How many errors may be recorded. -/
  maxErrors : Nat
  /-- How deep blocks and expressions may be nested. -/
  maxDepth : Nat
deriving DecidableEq

def Config.default : Config := ⟨true, 64, 48⟩

inductive Event where
  | pulled
  | began (kind : TokenKind) (line : Nat)
  | recorded (error : Error)
  | resynchronized (position : Position) (kind : TokenKind)
  | startMissing (error : Error)
  | finished (statements errors : Nat)

structure State where
  stream : TokenStream
  current : Token
  next : Token
  consumed : Nat
  openBlocks : Nat
  nesting : Nat
  /-- The recorded errors, oldest first. -/
  errors : List Error
  config : Config
  /-- What happened, newest first. -/
  journal : List Event

namespace State

def ofStream (stream : TokenStream) (config : Config) : Except Error State :=
  match stream.next with
  | (.error failure, _) => .error (.ofFailure failure)
  | (.ok current, stream) =>
      if current.kind = .eof then .ok ⟨stream, current, current, 0, 0, 0, [], config, [.pulled]⟩
      else
        match stream.next with
        | (.error failure, _) => .error (.ofFailure failure)
        | (.ok next, stream) => .ok ⟨stream, current, next, 0, 0, 0, [], config, [.pulled, .pulled]⟩

def size (state : State) : Nat :=
  if state.current.kind = .eof then 0
  else if state.next.kind = .eof then 1
  else state.stream.items.length + 2

def note (state : State) (event : Event) : State :=
  { state with journal := event :: state.journal }

def keep (state : State) (error : Error) : State :=
  { state with errors := state.errors ++ [error] }.note (.recorded error)

/-- How many errors can still be recorded before there are too many. -/
def slack (state : State) : Nat := state.config.maxErrors + 1 - state.errors.length

/-- No token leads through more than sixteen grammar functions, except that an end token with the
fault of a stray `!` is read as an operator, and recorded, again and again. -/
def fuel (state : State) : Nat := 16 * (state.size + 2) + state.slack

def pull (state : State) : Except LexFailure Token × State :=
  if state.next.kind = .eof then (.ok state.next, state)
  else
    let result := state.stream.next
    (result.1, { state with stream := result.2 }.note .pulled)

/-- Consumes the current token.  The end token stays where it is, and nothing is consumed if the
following token cannot be had. -/
def advance (state : State) : Except Error Token × State :=
  match state.pull with
  | (.error failure, after) => (.error (.ofFailure failure), after)
  | (.ok following, after) =>
      let moved := { after with current := after.next, next := following }
      match state.current.kind with
      | .eof => (.ok state.current, moved)
      | .indent =>
          (.ok state.current,
            { moved with openBlocks := moved.openBlocks + 1, consumed := moved.consumed + 1 })
      | .dedent =>
          (.ok state.current,
            { moved with openBlocks := moved.openBlocks - 1, consumed := moved.consumed + 1 })
      | _ => (.ok state.current, { moved with consumed := moved.consumed + 1 })

end State

/-! ## Grammar functions -/

/-- A grammar function fails with an error, in a state all the same, or runs out of fuel. -/
abbrev Parser := ExceptT Error (StateT State Option)

namespace Parser

def exhausted {α : Type} : Parser α := ExceptT.mk fun _ => none

def currentToken : Parser Token := do return (← get).current

def currentKind : Parser TokenKind := do return (← get).current.kind

def nextKind : Parser TokenKind := do return (← get).next.kind

def ofTransition {α : Type} (transition : State → Except Error α × State) : Parser α :=
  ExceptT.mk fun state => some (transition state)

def advance : Parser Token := ofTransition State.advance

def expectOneOf (kinds : List TokenKind) : Parser Token := do
  let token ← currentToken
  if kinds.contains token.kind then advance else throw (.unexpected kinds token)

def expect (kind : TokenKind) : Parser Token := expectOneOf [kind]

def attempt {α : Type} (parser : Parser α) : Parser (Except Error α) :=
  ExceptT.mk fun state => (parser.run state).map fun result => (.ok result.1, result.2)

/-- Runs a grammar function one level deeper, unless that is too deep. -/
def nested {α : Type} (parser : Parser α) : Parser α := do
  let state ← get
  if state.config.maxDepth ≤ state.nesting then
    throw ⟨.nestingTooDeep state.config.maxDepth, state.current.position⟩
  else
    set { state with nesting := state.nesting + 1 }
    let result ← attempt parser
    modify fun state => { state with nesting := state.nesting - 1 }
    match result with
    | .ok value => return value
    | .error error => throw error

/-! ## Recovery -/

/-- Records an error, and gives up once there are more of them than allowed. -/
def record (error : Error) : Parser Unit := do
  modify fun state => state.keep error
  let state ← get
  if state.config.maxErrors < state.errors.length then
    throw ⟨.tooManyErrors state.errors.length, state.current.position⟩

/-- Skips tokens up to a place where a statement may start: behind a line break that no block
follows, at a keyword that starts statements, at the end of the block that is `depth` blocks out,
or at the end of the text.  A keyword does not count before anything is skipped. -/
def skipToBoundary : Nat → Bool → Nat → Parser Unit
  | 0, _, _ => exhausted
  | fuel + 1, progressed, depth => do
      match ← currentKind with
      | .eof => return
      | .dedent =>
          if depth = 0 then return
          else
            let _ ← advance
            if depth = 1 then return else skipToBoundary fuel true (depth - 1)
      | .indent =>
          let _ ← advance
          skipToBoundary fuel true (depth + 1)
      | .newline =>
          let _ ← advance
          if depth = 0 then
            if (← currentKind) = .indent then skipToBoundary fuel true depth else return
          else skipToBoundary fuel true depth
      | kind =>
          if depth = 0 && progressed && kind.startsStatement then return
          else
            let _ ← advance
            skipToBoundary fuel true depth

/-- Goes on behind the statement that began when `start` tokens were consumed. -/
def synchronize (fuel start depth : Nat) : Parser Unit := do
  let state ← get
  skipToBoundary fuel (state.consumed != start) depth
  modify fun state => state.note (.resynchronized state.current.position state.current.kind)

/-- Records the error of a statement and skips the rest of it, together with the blocks that it has
opened since `openBlocks` were open. -/
def recover (fuel : Nat) (error : Error) (start openBlocks : Nat) : Parser Unit := do
  let state ← get
  if error.isFatal || !state.config.recover then throw error
  record error
  let state ← get
  synchronize fuel start (state.openBlocks - openBlocks)

end Parser

end Offside.Parse
