import Offside.Parse.Error

/-!
# Failures and reports

A failure is what stops a run: a source that cannot be read, a failure of the lexer or an error of
the parser.  A report is the form in which failures and recorded errors are shown: the phase to
which the problem belongs, its place if it has one, the name of its kind and a message.
-/

namespace Offside

inductive Phase where
  | source
  | lexer
  | parser
deriving DecidableEq

def Phase.name : Phase → String
  | source => "source"
  | lexer => "lexer"
  | parser => "parser"

structure Report where
  phase : Phase
  line? : Option Nat
  column? : Option Nat
  kind : String
  message : String
deriving DecidableEq

namespace Report

def short (report : Report) : String := report.phase.name ++ ": " ++ report.message

/-- The report in one line, with its place in front if it has one. -/
def display (report : Report) : String :=
  let text := report.phase.name ++ " error: " ++ report.message
  match report.line?, report.column? with
  | some line, some column => "[" ++ toString line ++ ":" ++ toString column ++ "] " ++ text
  | _, _ => text

end Report

/-! ## Errors of the parser -/

namespace Parse.Error

/-- Lexical problems come to light in the parser, but belong to the lexer. -/
def phase (error : Error) : Phase :=
  match error.cause with
  | .lexical _ | .failed _ => .lexer
  | _ => .parser

/-- The report of an error; its place is not repeated in the message. -/
def report (error : Error) : Report where
  phase := error.phase
  line? := some error.position.line
  column? := some error.position.column
  kind := error.cause.name
  message :=
    match error.cause with
    | .failed failure => failure.message
    | cause => cause.message

end Parse.Error

/-! ## Failures -/

inductive Failure where
  | malformedSource (offset : Nat)
  | unreadableSource (reason : String)
  | lexer (failure : LexFailure)
  | parser (error : Parse.Error)
deriving DecidableEq

namespace Failure

/-- A failure of the lexer is reported as such, also when a parser met it. -/
def ofParser (error : Parse.Error) : Failure :=
  match error.cause with
  | .failed failure => .lexer failure
  | _ => .parser error

def display : Failure → String
  | .malformedSource offset => "UTF-8 decode error at byte offset " ++ toString offset
  | .unreadableSource reason => "failed to read source: " ++ reason
  | .lexer failure => failure.display
  | .parser error => error.display

def line? : Failure → Option Nat
  | .malformedSource _ | .unreadableSource _ => none
  | .lexer failure => some failure.position.line
  | .parser error => some error.position.line

def column? : Failure → Option Nat
  | .malformedSource _ | .unreadableSource _ => none
  | .lexer failure => some failure.position.column
  | .parser error => some error.position.column

def phase : Failure → Phase
  | .malformedSource _ | .unreadableSource _ => .source
  | .lexer _ => .lexer
  | .parser error => error.phase

def report (failure : Failure) : Report :=
  match failure with
  | .malformedSource _ => ⟨.source, none, none, "Utf8Error", failure.display⟩
  | .unreadableSource _ => ⟨.source, none, none, "Io", failure.display⟩
  | .lexer cause =>
      ⟨.lexer, some cause.position.line, some cause.position.column, cause.name, cause.message⟩
  | .parser error => error.report

end Failure

end Offside
