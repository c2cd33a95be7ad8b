import Offside.Text.Position

/-!
# What can be wrong with the characters of a program

A fault is a recoverable lexical problem: it is carried by a token and the reading goes on.  A
failure stops the reading: a line is indented to no open level, or a token is asked for behind the
last one.
-/

namespace Offside

open Text (Position)

inductive Fault where
  | strayBang
  | unexpectedCharacter (found : Char)
  | mismatchedBracket (expected found : Char)
  | unmatchedCloser (closer : Char)
  | unclosedBracket (opener : Char)
  | invalidNumber (text : String)
  | integerOverflow (text : String)
  | invalidEscape (letter : Char)
  | newlineInString
  | unterminatedString
deriving DecidableEq

namespace Fault

def name : Fault → String
  | strayBang => "StrayBang"
  | unexpectedCharacter _ => "UnexpectedCharacter"
  | mismatchedBracket .. => "MismatchedBracket"
  | unmatchedCloser _ => "UnmatchedCloser"
  | unclosedBracket _ => "UnclosedBracket"
  | invalidNumber _ => "InvalidNumber"
  | integerOverflow _ => "IntegerOverflow"
  | invalidEscape _ => "InvalidEscape"
  | newlineInString => "NewlineInString"
  | unterminatedString => "UnterminatedString"

def message : Fault → String
  | strayBang => "unexpected '!', did you mean '!=' or 'not'?"
  | unexpectedCharacter found => "unexpected character '" ++ found.toString ++ "'"
  | mismatchedBracket expected found =>
      "mismatched bracket: expected '" ++ expected.toString ++ "', found '" ++ found.toString ++ "'"
  | unmatchedCloser closer => "unmatched closing bracket '" ++ closer.toString ++ "'"
  | unclosedBracket opener => "bracket '" ++ opener.toString ++ "' is never closed"
  | invalidNumber text => "invalid number literal '" ++ text ++ "'"
  | integerOverflow text => "integer literal '" ++ text ++ "' does not fit in 64 bits"
  | invalidEscape letter => "invalid escape sequence '\\" ++ letter.toString ++ "'"
  | newlineInString => "newline in string literal"
  | unterminatedString => "unterminated string literal"

end Fault

inductive LexFailure where
  /-- A line is indented to `width`, which is none of the open `levels`, outermost first. -/
  | mismatchedIndent (width : UInt64) (levels : List UInt64) (position : Position)
  | pastEndOfInput (position : Position)
deriving DecidableEq

namespace LexFailure

def name : LexFailure → String
  | mismatchedIndent .. => "MismatchedIndent"
  | pastEndOfInput _ => "PastEndOfInput"

def position : LexFailure → Position
  | mismatchedIndent _ _ position => position
  | pastEndOfInput position => position

def message : LexFailure → String
  | mismatchedIndent width levels _ =>
      "indentation of width " ++ toString width.toNat ++
        " does not match any enclosing block (open levels: [" ++
        ", ".intercalate (levels.map fun level => toString level.toNat) ++ "])"
  | pastEndOfInput _ => "token requested after end of input"

def display (failure : LexFailure) : String :=
  "[" ++ failure.position.display ++ "] " ++ failure.message

end LexFailure

end Offside
