import Offside.Number.Binary64

/-!
# The shortest decimal that reads back

Every finite number owns an interval of reals that round to it, ends included exactly if its
significand is even.  For one digit, two digits and so on, the two neighbours of the number on that
decimal grid are tried: the first grid with a neighbour in the interval wins, of two such neighbours
the nearer one, and a tie is decided by the caller's rule.
-/

namespace Offside.Number

structure Decimal where
  digits : Nat
  exponent : Int
deriving DecidableEq

inductive Tie where
  | up
  | even
deriving DecidableEq

namespace Shortest

/-- A number between the ends of its interval, all over one denominator. -/
structure Interval where
  low : Nat
  value : Nat
  high : Nat
  denominator : Nat
  closed : Bool

def intervalOf (significand : Nat) (exponent : Int) : Interval :=
  let lowGap :=
    if significand = Binary64.leastNormal && Binary64.leastExponent < exponent then 1 else 2
  let unit := if 0 ≤ exponent then Nat.pow 2 exponent.toNat else 1
  { low := (4 * significand - lowGap) * unit
    value := 4 * significand * unit
    high := (4 * significand + 2) * unit
    denominator := if 0 ≤ exponent then 4 else 4 * Nat.pow 2 (-exponent).toNat
    closed := significand % 2 = 0 }

def decimalLength (n : Nat) : Nat := (Nat.toDigits 10 n).length

def leadingExponent (interval : Interval) : Int :=
  if interval.denominator ≤ interval.value then
    decimalLength (interval.value / interval.denominator) - 1
  else
    let ratio := (interval.denominator + interval.value - 1) / interval.value
    Int.neg (decimalLength (ratio - 1))

def Interval.scale (interval : Interval) (exponent : Int) : Interval :=
  if 0 ≤ exponent then
    { interval with denominator := interval.denominator * Nat.pow 10 exponent.toNat }
  else
    let factor := Nat.pow 10 (-exponent).toNat
    { interval with
      low := interval.low * factor
      value := interval.value * factor
      high := interval.high * factor }

def Interval.contains (interval : Interval) (n : Nat) : Bool :=
  let point := n * interval.denominator
  if interval.closed then interval.low ≤ point && point ≤ interval.high
  else interval.low < point && point < interval.high

/-- The better of the two integers around the value that lie in the interval. -/
def nearestIn? (tie : Tie) (interval : Interval) : Option Nat :=
  let below := interval.value / interval.denominator
  let above := below + 1
  match interval.contains below, interval.contains above with
  | false, false => none
  | true, false => some below
  | false, true => some above
  | true, true =>
      let twice := 2 * (interval.value % interval.denominator)
      if twice < interval.denominator then some below
      else if interval.denominator < twice then some above
      else
        match tie with
        | .up => some above
        | .even => some (if below % 2 = 0 then below else above)

/-- Tries grids of `count` digits, then of one digit more, up to `limit` further grids. -/
def search (tie : Tie) (interval : Interval) (leading : Int) : Nat → Nat → Decimal
  | 0, count => ⟨interval.value / interval.denominator, leading + 1 - count⟩
  | limit + 1, count =>
      let exponent := leading + 1 - count
      match nearestIn? tie (interval.scale exponent) with
      | some digits => ⟨digits, exponent⟩
      | none => search tie interval leading limit (count + 1)

end Shortest

/-- The shortest decimal that reads back as `significand * 2 ^ exponent`, for a significand that is
not zero.  Seventeen digits always suffice. -/
def shortest (tie : Tie) (significand : Nat) (exponent : Int) : Decimal :=
  let interval := Shortest.intervalOf significand exponent
  Shortest.search tie interval (Shortest.leadingExponent interval) 17 1

end Offside.Number
