import Offside.Text.Cursor
import Offside.Token.Alphabet
import Offside.Token.Basic

/-!
# Number literals

A number literal is a run of digits, in another base than ten behind `0x`, `0b` or `0o`, or two runs
of decimal digits around a point.  Single underscores may stand between two digits.  A literal that
is malformed, or that runs into a word, is one error together with the rest of that word.
-/

namespace Offside.Scan

open Text (Cursor Position)

structure DigitRun where
  /-- The digits without the separators. -/
  digits : List Char
  /-- The run as it is written. -/
  text : List Char
  /-- Whether there is a digit and every separator stands between two digits. -/
  wellFormed : Bool
  /-- Where the run ends, or where it breaks the rules. -/
  cursor : Cursor

def startsWithDigit (radix : Nat) (cursor : Cursor) : Bool :=
  match cursor.current? with
  | some c => isDigitIn radix c
  | none => false

def atWordChar (cursor : Cursor) : Bool :=
  match cursor.current? with
  | some c => isWordChar c
  | none => false

/-- Reads a run of digits; `started` says whether a digit came before. -/
def digitRun (radix : Nat) (started : Bool) (cursor : Cursor) : DigitRun :=
  match _h : cursor.read? with
  | none => ⟨[], [], started, cursor⟩
  | some (c, next) =>
      if isDigitIn radix c then
        let tail := digitRun radix true next
        ⟨c :: tail.digits, c :: tail.text, tail.wellFormed, tail.cursor⟩
      else if c = '_' then
        if started && startsWithDigit radix next then
          let tail := digitRun radix true next
          ⟨tail.digits, c :: tail.text, tail.wellFormed, tail.cursor⟩
        else ⟨[], [], false, cursor⟩
      else ⟨[], [], started, cursor⟩
termination_by cursor.rest.length
decreasing_by all_goals exact Cursor.length_lt_of_read? _h

def digitsValue (radix : Nat) (digits : List Char) : Nat :=
  digits.foldl (fun value c => value * radix + (digitValue? c).getD 0) 0

def radixAt (cursor : Cursor) : Nat :=
  if cursor.current? = some '0' then
    match cursor.peek? with
    | some mark =>
        if mark = 'x' || mark = 'X' then 16
        else if mark = 'b' || mark = 'B' then 2
        else if mark = 'o' || mark = 'O' then 8
        else 10
    | none => 10
  else 10

/-- One error for a malformed literal and the word that it runs into. -/
def invalidNumber (position : Position) (text : List Char) (cursor : Cursor) : Token × Cursor :=
  let glued := cursor.span isWordChar
  (.error (.invalidNumber (String.ofList (text ++ glued.1))) position, glued.2)

/-- Integers are below two to the sixty-third. -/
def integerLimit : Nat := Nat.pow 2 63

def integerToken (position : Position) (radix : Nat) (text digits : List Char) : Token :=
  let value := digitsValue radix digits
  if value < integerLimit then .integer value position
  else .error (.integerOverflow (String.ofList text)) position

def floatToken (position : Position) (whole fraction : List Char) : Token :=
  .float (.ofDecimal false (digitsValue 10 (whole ++ fraction)) (-fraction.length)) position

def fractionFollows (cursor : Cursor) : Bool :=
  cursor.isAt '.' && startsWithDigit 10 cursor.advance

def scanDigits (position : Position) (radix : Nat) (announced : List Char) (cursor : Cursor) :
    Token × Cursor :=
  let whole := digitRun radix false cursor
  let text := announced ++ whole.text
  if !whole.wellFormed then invalidNumber position text whole.cursor
  else if radix = 10 && fractionFollows whole.cursor then
    let fraction := digitRun 10 false whole.cursor.advance
    if !fraction.wellFormed || atWordChar fraction.cursor then
      invalidNumber position (text ++ '.' :: fraction.text) fraction.cursor
    else (floatToken position whole.digits fraction.digits, fraction.cursor)
  else if atWordChar whole.cursor then invalidNumber position text whole.cursor
  else (integerToken position radix text whole.digits, whole.cursor)

def scanNumber (cursor : Cursor) : Token × Cursor :=
  let radix := radixAt cursor
  if radix = 10 then scanDigits cursor.position radix [] cursor
  else
    let announced := cursor.current?.toList ++ cursor.peek?.toList
    scanDigits cursor.position radix announced cursor.advance.advance

/-! ## Progress -/

theorem digitRun_length_le (radix : Nat) (started : Bool) (cursor : Cursor) :
    (digitRun radix started cursor).cursor.rest.length ≤ cursor.rest.length := by
  fun_induction digitRun radix started cursor <;> grind [→ Cursor.length_lt_of_read?]

theorem digitRun_length_lt {radix : Nat} {started : Bool} {cursor : Cursor}
    (h : startsWithDigit radix cursor = true) :
    (digitRun radix started cursor).cursor.rest.length < cursor.rest.length := by
  unfold digitRun
  split
  · rename_i hread
    simp [startsWithDigit, Cursor.current?, hread] at h
  · rename_i c next hread
    have hdigit : isDigitIn radix c = true := by
      simpa [startsWithDigit, Cursor.current?, hread] using h
    have := Cursor.length_lt_of_read? hread
    have := digitRun_length_le radix true next
    simp only [hdigit, if_true]
    omega

theorem invalidNumber_length_le (position : Position) (text : List Char) (cursor : Cursor) :
    (invalidNumber position text cursor).2.rest.length ≤ cursor.rest.length :=
  Cursor.span_length_le _ _

theorem scanDigits_length_le (position : Position) (radix : Nat) (announced : List Char)
    (cursor : Cursor) :
    (scanDigits position radix announced cursor).2.rest.length ≤
      (digitRun radix false cursor).cursor.rest.length := by
  unfold scanDigits
  simp only
  split
  · exact invalidNumber_length_le ..
  · split
    · have hadvance := Cursor.advance_length_le (digitRun radix false cursor).cursor
      have hfraction := digitRun_length_le 10 false (digitRun radix false cursor).cursor.advance
      split
      · exact Nat.le_trans (invalidNumber_length_le ..) (Nat.le_trans hfraction hadvance)
      · exact Nat.le_trans hfraction hadvance
    · split
      · exact invalidNumber_length_le ..
      · exact Nat.le_refl _

theorem scanNumber_length_lt {cursor : Cursor} (h : startsWithDigit 10 cursor = true) :
    (scanNumber cursor).2.rest.length < cursor.rest.length := by
  have hrest : cursor.rest ≠ [] := by
    intro hempty
    rw [startsWithDigit, (Cursor.current?_eq_none_iff cursor).2 hempty] at h
    simp at h
  unfold scanNumber
  simp only
  split
  · rename_i hradix
    rw [hradix]
    exact Nat.lt_of_le_of_lt (scanDigits_length_le ..) (digitRun_length_lt h)
  · have h1 := Cursor.advance_length_lt hrest
    have h2 := Cursor.advance_length_le cursor.advance
    have h3 := digitRun_length_le (radixAt cursor) false cursor.advance.advance
    have h4 := scanDigits_length_le cursor.position (radixAt cursor)
      (cursor.current?.toList ++ cursor.peek?.toList) cursor.advance.advance
    omega

end Offside.Scan
