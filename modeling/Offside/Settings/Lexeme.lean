import Offside.Number.Binary64
import Offside.Settings.Refusal
import Offside.Token.Alphabet

/-!
# The lexemes of JSON

Blanks, fixed words, strings and numbers.  A string is read strictly where its content counts: then
every escape has to stand for a character.  Otherwise halves of surrogate pairs pass.  Likewise
only a number that counts has to be of a possible magnitude.
-/

namespace Offside.Settings.Reader

/-! ## Single characters -/

def isBlank (c : Char) : Bool := c = ' ' || c = '\t' || c = '\n' || c = '\r'

def peek? : Reader (Option Char) := do
  modify (·.dropWhile isBlank)
  return (← get).head?

/-- The first character behind blanks, where the text must not end before it. -/
def peek : Reader Char := do
  match ← peek? with
  | some c => return c
  | none => throw .unfinished

def drop : Reader Unit := modify List.tail

def mark (c : Char) : Reader Unit := do
  if (← peek) = c then drop else throw .malformed

def letters : List Char → Reader Unit
  | [] => return
  | letter :: more => do
      match ← get with
      | [] => throw .unfinished
      | c :: rest =>
          if c = letter then
            set rest
            letters more
          else throw .malformed

def nullWord : List Char := ['n', 'u', 'l', 'l']

def trueWord : List Char := ['t', 'r', 'u', 'e']

def falseWord : List Char := ['f', 'a', 'l', 's', 'e']

/-! ## Strings -/

def digitsValue (radix : Nat) (digits : List Char) : Nat :=
  digits.foldl (fun value c => value * radix + (digitValue? c).getD 0) 0

/-- Four hexadecimal digits.  The text ends too early if fewer than four bytes are left. -/
def sixteenBits : Reader Nat := do
  match ← get with
  | a :: b :: c :: d :: rest =>
      if [a, b, c, d].all (isDigitIn 16) then
        set rest
        return digitsValue 16 [a, b, c, d]
      else throw .malformed
  | rest =>
      throw (if (String.ofList rest).utf8ByteSize < 4 then .unfinished else .malformed)

def isLeadingSurrogate (bits : Nat) : Bool := 0xd800 ≤ bits && bits ≤ 0xdbff

def isTrailingSurrogate (bits : Nat) : Bool := 0xdc00 ≤ bits && bits ≤ 0xdfff

/-- The character of a numeric escape, which may take a second one. -/
def numericEscape : Reader Char := do
  let first ← sixteenBits
  if isTrailingSurrogate first then throw .malformed
  else if isLeadingSurrogate first then
    letters ['\\', 'u']
    let second ← sixteenBits
    if isTrailingSurrogate second then
      return Char.ofNat (0x10000 + (first - 0xd800) * 0x400 + (second - 0xdc00))
    else throw .malformed
  else return Char.ofNat first

/-- The character behind a backslash; one that does not count is not formed. -/
def escape (strict : Bool) : Reader Char := do
  match ← get with
  | [] => throw .unfinished
  | c :: rest =>
      set rest
      if c = '"' || c = '\\' || c = '/' then return c
      else if c = 'b' then return '\x08'
      else if c = 'f' then return '\x0c'
      else if c = 'n' then return '\n'
      else if c = 'r' then return '\r'
      else if c = 't' then return '\t'
      else if c = 'u' then
        if strict then numericEscape
        else
          let _ ← sixteenBits
          return c
      else throw .malformed

/-- The characters up to the closing quotation mark, put in front of `content` in reverse. -/
def stringEnd (strict : Bool) : Nat → List Char → Reader (List Char)
  | 0, _ => throw .unfinished
  | fuel + 1, content => do
      match ← get with
      | [] => throw .unfinished
      | c :: rest =>
          if c = '"' then
            set rest
            return content.reverse
          else if c = '\\' then
            set rest
            let found ← escape strict
            stringEnd strict fuel (found :: content)
          else if c.toNat < 0x20 then throw .malformed
          else
            set rest
            stringEnd strict fuel (c :: content)

def string (strict : Bool) : Reader String := do
  drop
  let content ← stringEnd strict ((← get).length + 1) []
  return String.ofList content

/-! ## Numbers -/

structure Numeral where
  negative : Bool
  whole : List Char
  fraction : List Char
  /-- Zero also where no exponent is written. -/
  exponent : Int
  /-- Neither a fraction nor an exponent is written. -/
  isInteger : Bool

def digitRun : Reader (List Char) := do
  let text ← get
  set (text.dropWhile Char.isDigit)
  return text.takeWhile Char.isDigit

/-- A run of digits that must not be empty; `missing` is the refusal at the end of the text. -/
def digits (missing : Refusal) : Reader (List Char) := do
  let run ← digitRun
  if run.isEmpty then throw (if (← get).isEmpty then missing else .malformed)
  else return run

def oneOf? (choices : List Char) : Reader (Option Char) := do
  match ← get with
  | c :: rest =>
      if choices.contains c then
        set rest
        return some c
      else return none
  | [] => return none

/-- A number.  The refusal of one that is cut off by the end of the text is `missing`. -/
def numeral (missing : Refusal) : Reader Numeral := do
  let negative := (← oneOf? ['-']).isSome
  let whole ← digits missing
  if whole.head? = some '0' && whole.length != 1 then throw .malformed
  let point := (← oneOf? ['.']).isSome
  let fraction ← if point then digits missing else pure []
  if (← oneOf? ['e', 'E']).isSome then
    let sign ← oneOf? ['+', '-']
    let size := digitsValue 10 (← digits missing)
    return ⟨negative, whole, fraction, if sign = some '-' then -size else size, false⟩
  else return ⟨negative, whole, fraction, 0, !point⟩

/-- The greatest number that leading digits spell within 64 bits, and the digits behind them. -/
def gather (value : Nat) : List Char → Nat × List Char
  | [] => (value, [])
  | digit :: rest =>
      let grown := value * 10 + digitsValue 10 [digit]
      if grown < UInt64.size then gather grown rest else (value, digit :: rest)

/-- A finite number times another, in units of the least positive one squared. -/
def exactProduct : Number.Binary64 → Number.Binary64 → Option Nat
  | .finite _ first exponent, .finite _ second exponent' =>
      some (first * second * Nat.pow 2 (exponent + exponent' + 2148).toNat)
  | _, _ => none

/-- The magnitude is beyond all finite numbers.  The leading digits are rounded to a binary number,
and so is the power of ten by which they are multiplied. -/
def Numeral.isTooLarge (numeral : Numeral) : Bool :=
  let whole := gather 0 numeral.whole
  let both := gather whole.1 numeral.fraction
  let exponent :=
    numeral.exponent + whole.2.length + both.2.length - numeral.fraction.length
  if both.1 = 0 || exponent < 0 then false
  else if 308 < exponent then true
  else
    match exactProduct (.ofDecimal false both.1 0) (.ofDecimal false 1 exponent) with
    | some product => (Nat.pow 2 54 - 1) * Nat.pow 2 (970 + 2148) ≤ product
    | none => true

def Numeral.natural? (numeral : Numeral) : Option UInt64 :=
  let value := digitsValue 10 numeral.whole
  if numeral.isInteger && !numeral.negative && value < UInt64.size then some (.ofNat value) else none

def number : Reader Numeral := do
  let numeral ← numeral .unfinished
  if numeral.isTooLarge then throw .malformed else return numeral

end Offside.Settings.Reader
