import Offside.Text.Printable

/-!
# Quoted text

A quoted text stands between two equal marks.  The mark itself and the backslash follow a backslash,
four common controls have a letter of their own, and every other character that is not printable is
written by its code point in hexadecimal.
-/

namespace Offside.Text

def controlLetter? (c : Char) : Option Char :=
  if c = '\x00' then some '0'
  else if c = '\t' then some 't'
  else if c = '\r' then some 'r'
  else if c = '\n' then some 'n'
  else none

/-- A code point in lower-case hexadecimal digits without leading zeros. -/
def codePointEscape (c : Char) : List Char :=
  '\\' :: 'u' :: '\x7b' :: Nat.toDigits 16 c.toNat ++ ['\x7d']

def quoteChar (mark c : Char) : List Char :=
  match controlLetter? c with
  | some letter => ['\\', letter]
  | none =>
      if c = mark || c = '\\' then ['\\', c]
      else if isPrintable c then [c]
      else codePointEscape c

def quotedWith (mark : Char) (text : List Char) : String :=
  String.ofList (mark :: text.flatMap (quoteChar mark) ++ [mark])

def quoted (text : String) : String := quotedWith '"' text.toList

def quotedChar (c : Char) : String := quotedWith '\'' [c]

end Offside.Text
