import Offside.Text.Cursor
import Offside.Token.Alphabet
import Offside.Token.Basic

/-!
# String literals

A string literal runs from one quotation mark to the next and stays on its line.  A backslash and a
letter of the escape table stand for another character; the first letter outside the table is the
only one that is reported.  A line break ends a literal that is still open and is left unread.
-/

namespace Offside.Scan

open Text (Cursor Position)

inductive Ending where
  | closed
  | lineBreak
  | endOfText
deriving DecidableEq

structure Quotation where
  content : List Char
  /-- The first letter that makes no escape, and the position of its backslash. -/
  badEscape? : Option (Char × Position)
  ending : Ending
  cursor : Cursor

def readQuotation (cursor : Cursor) : Quotation :=
  match _h : cursor.read? with
  | none => ⟨[], none, .endOfText, cursor⟩
  | some (c, next) =>
      if c = '\n' then ⟨[], none, .lineBreak, cursor⟩
      else if c = '"' then ⟨[], none, .closed, next⟩
      else if c = '\\' then
        match _hletter : next.read? with
        | none => ⟨[], none, .endOfText, next⟩
        | some (letter, behind) =>
            if letter = '\n' then ⟨[], none, .lineBreak, next⟩
            else
              let tail := readQuotation behind
              match escapedChar? letter with
              | some escaped => { tail with content := escaped :: tail.content }
              | none => { tail with badEscape? := some (letter, cursor.position) }
      else
        let tail := readQuotation next
        { tail with content := c :: tail.content }
termination_by cursor.rest.length
decreasing_by
  · exact Nat.lt_trans (Cursor.length_lt_of_read? _hletter) (Cursor.length_lt_of_read? _h)
  · exact Cursor.length_lt_of_read? _h

def Quotation.token (quotation : Quotation) (position : Position) : Token :=
  match quotation.ending with
  | .endOfText => .error .unterminatedString position
  | .lineBreak => .error .newlineInString quotation.cursor.position
  | .closed =>
      match quotation.badEscape? with
      | some (letter, backslash) => .error (.invalidEscape letter) backslash
      | none => .string (String.ofList quotation.content) position

def scanQuotation (cursor : Cursor) : Token × Cursor :=
  let quotation := readQuotation cursor.advance
  (quotation.token cursor.position, quotation.cursor)

/-! ## Progress -/

theorem readQuotation_length_le (cursor : Cursor) :
    (readQuotation cursor).cursor.rest.length ≤ cursor.rest.length := by
  fun_induction readQuotation cursor <;> grind [→ Cursor.length_lt_of_read?]

theorem scanQuotation_length_lt {cursor : Cursor} (h : cursor.rest ≠ []) :
    (scanQuotation cursor).2.rest.length < cursor.rest.length :=
  Nat.lt_of_le_of_lt (readQuotation_length_le cursor.advance) (Cursor.advance_length_lt h)

end Offside.Scan
