import Offside.Number.Shortest

/-!
# Writing numbers

A style fixes which magnitudes are written without an exponent, whether a positive exponent shows
its sign, and how a tie between two shortest decimals is broken.  A number without a fraction keeps
`.0` when it is written without an exponent.
-/

namespace Offside.Number

structure Style where
  /-- The least and the greatest leading exponent that is written out. -/
  plainFrom : Int
  plainTo : Int
  exponentPlus : Bool
  tie : Tie

def Style.listing : Style := ⟨-4, 15, false, .up⟩

def Style.document : Style := ⟨-5, 15, true, .even⟩

def significantDigits (n : Nat) : List Char :=
  ((Nat.toDigits 10 n).reverse.dropWhile (· == '0')).reverse

def plainText (digits : List Char) (leading : Int) : List Char :=
  if leading < 0 then
    '0' :: '.' :: List.replicate (-leading - 1).toNat '0' ++ digits
  else
    let whole := leading.toNat + 1
    let fraction := digits.drop whole
    digits.take whole ++ List.replicate (whole - digits.length) '0' ++
      '.' :: (if fraction.isEmpty then ['0'] else fraction)

def exponentText (plus : Bool) (digits : List Char) (leading : Int) : List Char :=
  let mantissa :=
    match digits with
    | [] => []
    | [digit] => [digit]
    | digit :: fraction => digit :: '.' :: fraction
  let sign := if leading < 0 then ['-'] else if plus then ['+'] else []
  mantissa ++ 'e' :: sign ++ Nat.toDigits 10 leading.natAbs

def Style.magnitude (style : Style) (significand : Nat) (exponent : Int) : List Char :=
  if significand = 0 then ['0', '.', '0']
  else
    let decimal := shortest style.tie significand exponent
    let digits := significantDigits decimal.digits
    let leading := decimal.exponent + (Shortest.decimalLength decimal.digits : Int) - 1
    if style.plainFrom ≤ leading && leading ≤ style.plainTo then plainText digits leading
    else exponentText style.exponentPlus digits leading

def Style.write (style : Style) : Binary64 → String
  | .finite negative significand exponent =>
      String.ofList ((if negative then ['-'] else []) ++ style.magnitude significand exponent)
  | .infinite negative => if negative then "-inf" else "inf"
  | .nan => "NaN"

end Offside.Number
