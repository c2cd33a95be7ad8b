import Offside.Text.Cursor
import Offside.Token.Alphabet

/-!
# What a scanner keeps while it reads

The unread text, the stack of open indentation widths and the stack of open brackets.  Both stacks
are kept innermost first.  The width of the line that opened the outermost bracket is remembered
as long as brackets are open, and tells whether a later line continues the bracketed text.
-/

namespace Offside.Scan

open Text (Cursor)

structure Context where
  cursor : Cursor
  indents : List UInt64
  openers : List Char
  /-- The indentation where the outermost bracket was opened; without meaning while none is open. -/
  bracketIndent : UInt64

inductive BracketError where
  | unopened
  | expected (closer : Char)
deriving DecidableEq

namespace Context

def ofText (text : String) : Context := ⟨.ofText text, [], [], 0⟩

def advance (context : Context) : Context := { context with cursor := context.cursor.advance }

def skip (context : Context) (c : Char) : Context :=
  if context.cursor.isAt c then context.advance else context

/-! ## Indentation -/

def indent (context : Context) : UInt64 := context.indents.head?.getD 0

def levels (context : Context) : List UInt64 := context.indents.reverse

/-- A width can be opened if it is the first or greater than the innermost one. -/
def acceptsIndent (context : Context) (width : UInt64) : Bool :=
  context.indents.isEmpty || context.indent < width

def pushIndent (context : Context) (width : UInt64) : Context :=
  if context.acceptsIndent width then { context with indents := width :: context.indents }
  else context

def popIndent (context : Context) : Context :=
  { context with indents := context.indents.tail }

def hasIndent (context : Context) (width : UInt64) : Bool := context.indents.contains width

/-! ## Brackets -/

def inBrackets (context : Context) : Bool := !context.openers.isEmpty

def openBracket (context : Context) (opener : Char) : Context :=
  { context with
    openers := opener :: context.openers
    bracketIndent := if context.inBrackets then context.bracketIndent else context.indent }

/-- Closes the innermost bracket, which a closer of another kind leaves open. -/
def closeBracket (context : Context) (closer : Char) : Except BracketError (Char × Context) :=
  match context.openers with
  | [] => .error .unopened
  | opener :: outer =>
      if closingOf opener = closer then .ok (opener, { context with openers := outer })
      else .error (.expected (closingOf opener))

def drainBrackets (context : Context) : Context := { context with openers := [] }

end Context

end Offside.Scan
