import Offside.Text.Blank

/-!
# Lexical classes of characters

Words are runs of characters that are not reserved.  Reserved are the blanks, the characters of
operators and punctuation, and the quotation mark.
-/

namespace Offside

def operatorCharacters : List Char :=
  ['!', '=', '<', '>', '.', ':', ',', '+', '-', '/', '*', '%', '^', '(', ')', '[', ']', '\x7b',
    '\x7d', '"']

def isReserved (c : Char) : Bool := operatorCharacters.contains c || Text.isBlank c

def isWordChar (c : Char) : Bool := !isReserved c

def isOpener (c : Char) : Bool := c == '(' || c == '[' || c == '\x7b'

def isCloser (c : Char) : Bool := c == ')' || c == ']' || c == '\x7d'

/-- The closing bracket of an opening one; any other character closes itself. -/
def closingOf (opener : Char) : Char :=
  if opener = '(' then ')'
  else if opener = '[' then ']'
  else if opener = '\x7b' then '\x7d'
  else opener

/-- The value of a digit in bases up to thirty-six, in either case. -/
def digitValue? (c : Char) : Option Nat :=
  if '0' ≤ c && c ≤ '9' then some (c.toNat - '0'.toNat)
  else if 'a' ≤ c && c ≤ 'z' then some (c.toNat - 'a'.toNat + 10)
  else if 'A' ≤ c && c ≤ 'Z' then some (c.toNat - 'A'.toNat + 10)
  else none

def isDigitIn (radix : Nat) (c : Char) : Bool :=
  match digitValue? c with
  | some value => value < radix
  | none => false

def escapedChar? (letter : Char) : Option Char :=
  if letter = 'n' then some '\n'
  else if letter = 't' then some '\t'
  else if letter = 'r' then some '\r'
  else if letter = '\\' then some '\\'
  else if letter = '"' then some '"'
  else if letter = 'a' then some '\x07'
  else if letter = 'b' then some '\x08'
  else if letter = 'f' then some '\x0c'
  else if letter = 'v' then some '\x0b'
  else if letter = '0' then some '\x00'
  else none

theorem isDigitIn_ten_of_isDigit {c : Char} (h : c.isDigit = true) : isDigitIn 10 c = true := by
  simp only [Char.isDigit, Bool.and_eq_true, decide_eq_true_eq] at h
  have low : '0' ≤ c := h.1
  have high : c ≤ '9' := h.2
  have value : c.toNat ≤ 57 := UInt32.le_iff_toNat_le.1 h.2
  have zero : '0'.toNat = 48 := rfl
  simp only [isDigitIn, digitValue?, low, high, decide_true, Bool.and_self, if_true, zero,
    decide_eq_true_eq]
  omega

theorem isReserved_of_isBlank {c : Char} (h : Text.isBlank c = true) : isReserved c = true := by
  simp [isReserved, h]

end Offside
