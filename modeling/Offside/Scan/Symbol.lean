import Offside.Scan.Context
import Offside.Token.Basic

/-!
# Words, operators and brackets

A word is the longest run of characters that are not reserved, and a keyword if it is spelled like
one.  Of the operators that match at a place the longest is taken.
-/

namespace Offside.Scan

open Text (Cursor Position)

def scanWord (cursor : Cursor) : Token × Cursor :=
  let run := cursor.span isWordChar
  let word := String.ofList run.1
  match TokenKind.keyword? word with
  | some kind => (.plain kind cursor.position, run.2)
  | none => (.identifier word cursor.position, run.2)

/-- An operator, or the same operator combined with an assignment. -/
def withAssign (simple combined : TokenKind) (cursor : Cursor) : TokenKind × Cursor :=
  if cursor.isAt '=' then (combined, cursor.advance) else (simple, cursor)

/-- The operator or punctuation mark that starts with `c`, read from the cursor behind `c`. -/
def operatorBehind? (c : Char) (cursor : Cursor) : Option (TokenKind × Cursor) :=
  match c with
  | '+' => some (withAssign .plus .plusAssign cursor)
  | '-' => some (withAssign .minus .minusAssign cursor)
  | '/' => some (withAssign .divide .divideAssign cursor)
  | '%' => some (withAssign .modulo .moduloAssign cursor)
  | '=' => some (withAssign .assign .equal cursor)
  | '<' => some (withAssign .less .lessEqual cursor)
  | '>' => some (withAssign .greater .greaterEqual cursor)
  | '*' =>
      if cursor.isAt '*' then some (withAssign .power .powerAssign cursor.advance)
      else some (withAssign .times .timesAssign cursor)
  | '!' => if cursor.isAt '=' then some (.notEqual, cursor.advance) else none
  | '.' => some (.dot, cursor)
  | ':' => some (.colon, cursor)
  | ',' => some (.comma, cursor)
  | _ => none

def strayFault (c : Char) : Fault := if c = '!' then .strayBang else .unexpectedCharacter c

def openerKind (opener : Char) : TokenKind :=
  if opener = '(' then .leftParen else if opener = '[' then .leftSquare else .leftBrace

def closerKind (closer : Char) : TokenKind :=
  if closer = ')' then .rightParen else if closer = ']' then .rightSquare else .rightBrace

/-- Reads the operator, bracket or stray character `c` at `position`; the context is already behind
it. -/
def scanSymbol (c : Char) (position : Position) (context : Context) : Token × Context :=
  if isOpener c then (.plain (openerKind c) position, context.openBracket c)
  else if isCloser c then
    match context.closeBracket c with
    | .ok (_, closed) => (.plain (closerKind c) position, closed)
    | .error .unopened => (.error (.unmatchedCloser c) position, context)
    | .error (.expected closer) => (.error (.mismatchedBracket closer c) position, context)
  else
    match operatorBehind? c context.cursor with
    | some (kind, cursor) => (.plain kind position, { context with cursor })
    | none => (.error (strayFault c) position, context)

/-! ## Progress -/

theorem scanWord_length_lt {cursor : Cursor} (h : (cursor.span isWordChar).1 ≠ []) :
    (scanWord cursor).2.rest.length < cursor.rest.length := by
  have := Cursor.span_length_lt h
  unfold scanWord
  simp only
  split <;> exact this

theorem operatorBehind?_length_le {c : Char} {cursor behind : Cursor} {kind : TokenKind}
    (h : operatorBehind? c cursor = some (kind, behind)) :
    behind.rest.length ≤ cursor.rest.length := by
  unfold operatorBehind? at h
  split at h <;> grind [withAssign, Cursor.advance_length_le]

theorem scanSymbol_length_le (c : Char) (position : Position) (context : Context) :
    (scanSymbol c position context).2.cursor.rest.length ≤ context.cursor.rest.length := by
  unfold scanSymbol
  grind [Context.closeBracket, Context.openBracket, → operatorBehind?_length_le]

theorem scanSymbol_indents (c : Char) (position : Position) (context : Context) :
    (scanSymbol c position context).2.indents = context.indents := by
  unfold scanSymbol
  grind [Context.closeBracket, Context.openBracket]

end Offside.Scan
