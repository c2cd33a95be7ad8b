import Offside.Token.Basic

/-!
# Errors of the parser

An error has a cause and a position.  A failure of the lexer and a run of too many errors stop a
parse for good; after every other error the parser can go on behind the broken statement.
-/

namespace Offside.Parse

open Text (Position)

inductive Cause where
  | unexpected (expected : List TokenKind) (received : TokenKind)
  | expectedExpression (received : TokenKind)
  | lexical (fault : Fault)
  | failed (failure : LexFailure)
  | tooManyErrors (count : Nat)
  | nestingTooDeep (limit : Nat)
deriving DecidableEq

structure Error where
  cause : Cause
  position : Position
deriving DecidableEq

namespace Cause

def describeExpected : List TokenKind → String
  | [] => "something else"
  | [kind] => kind.describe
  | kinds => "one of " ++ ", ".intercalate (kinds.map TokenKind.describe)

def name : Cause → String
  | unexpected .. => "UnexpectedToken"
  | expectedExpression _ => "ExpectedExpression"
  | lexical fault => fault.name
  | failed failure => failure.name
  | tooManyErrors _ => "TooManyErrors"
  | nestingTooDeep _ => "NestingTooDeep"

/-- The text of a cause; a failure of the lexer brings its position along. -/
def message : Cause → String
  | unexpected expected received =>
      "unexpected " ++ received.describe ++ ", expected " ++ describeExpected expected
  | expectedExpression received => "expected an expression, found " ++ received.describe
  | lexical fault => fault.message
  | failed failure => failure.display
  | tooManyErrors count => "too many errors (" ++ toString count ++ "), giving up"
  | nestingTooDeep limit => "nesting exceeds the limit of " ++ toString limit ++ " levels"

end Cause

namespace Error

/-- The error of meeting `found` where a token of the expected kinds should stand; the fault of an
error token takes precedence. -/
def unexpected (expected : List TokenKind) (found : Token) : Error :=
  match found.fault? with
  | some fault => ⟨.lexical fault, found.position⟩
  | none => ⟨.unexpected expected found.kind, found.position⟩

/-- The error of meeting `found` where an expression should start. -/
def expectedExpression (found : Token) : Error :=
  match found.fault? with
  | some fault => ⟨.lexical fault, found.position⟩
  | none => ⟨.expectedExpression found.kind, found.position⟩

def ofFailure (failure : LexFailure) : Error := ⟨.failed failure, failure.position⟩

def message (error : Error) : String := error.cause.message

def expected (error : Error) : List TokenKind :=
  match error.cause with
  | .unexpected expected _ => expected
  | _ => []

/-- The kind of the token at which the error was noticed, where there is one. -/
def received? (error : Error) : Option TokenKind :=
  match error.cause with
  | .unexpected _ received => some received
  | .expectedExpression received => some received
  | .lexical _ => some .error
  | _ => none

/-- No recovery is possible. -/
def isFatal (error : Error) : Bool :=
  match error.cause with
  | .failed _ | .tooManyErrors _ => true
  | _ => false

/-- The message behind its position, which a failure of the lexer brings along. -/
def display (error : Error) : String :=
  match error.cause with
  | .failed failure => failure.display
  | cause => "[" ++ error.position.display ++ "] " ++ cause.message

end Error

end Offside.Parse
