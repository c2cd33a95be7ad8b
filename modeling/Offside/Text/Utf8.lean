/-!
# Decoding UTF-8

A byte sequence is cut into characters and, where it is malformed, into the longest prefixes that
could still have become a character.  Strict decoding reports the offset of the first malformed
piece; lossy decoding writes U+FFFD for each of them.
-/

namespace Offside.Text.Utf8

def isContinuation (byte : UInt8) : Bool := 0x80 ≤ byte && byte ≤ 0xbf

structure Demand where
  /-- How many bytes follow the first one. -/
  count : Nat
  /-- The bits of the first byte that belong to the code point. -/
  bits : Nat
  /-- The least and the greatest byte that may come second. -/
  low : UInt8
  high : UInt8

/-- The well-formed beginnings; the bounds on the second byte keep out overlong forms, surrogates
and code points above U+10FFFF. -/
def demand? (first : UInt8) : Option Demand :=
  if 0xc2 ≤ first && first ≤ 0xdf then some ⟨1, first.toNat - 0xc0, 0x80, 0xbf⟩
  else if first = 0xe0 then some ⟨2, 0, 0xa0, 0xbf⟩
  else if first = 0xed then some ⟨2, 0xd, 0x80, 0x9f⟩
  else if 0xe1 ≤ first && first ≤ 0xef then some ⟨2, first.toNat - 0xe0, 0x80, 0xbf⟩
  else if first = 0xf0 then some ⟨3, 0, 0x90, 0xbf⟩
  else if 0xf1 ≤ first && first ≤ 0xf3 then some ⟨3, first.toNat - 0xf0, 0x80, 0xbf⟩
  else if first = 0xf4 then some ⟨3, 4, 0x80, 0x8f⟩
  else none

/-- Reads the bytes still owed to a code point whose bits so far are `bits`. -/
def readTail : Nat → Nat → List UInt8 → Option Char × List UInt8
  | 0, bits, rest => (some (Char.ofNat bits), rest)
  | _ + 1, _, [] => (none, [])
  | count + 1, bits, byte :: rest =>
      if isContinuation byte then readTail count (bits * 64 + (byte.toNat - 0x80)) rest
      else (none, byte :: rest)

/-- The first piece of `first :: rest`, `none` for a malformed one, and the bytes behind it. -/
def readHead (first : UInt8) (rest : List UInt8) : Option Char × List UInt8 :=
  if first < 0x80 then (some (Char.ofNat first.toNat), rest)
  else
    match demand? first, rest with
    | none, _ => (none, rest)
    | some _, [] => (none, [])
    | some demand, second :: more =>
        if demand.low ≤ second && second ≤ demand.high then
          readTail (demand.count - 1) (demand.bits * 64 + (second.toNat - 0x80)) more
        else (none, rest)

theorem readTail_length_le (count bits : Nat) (bytes : List UInt8) :
    (readTail count bits bytes).2.length ≤ bytes.length := by
  fun_induction readTail count bits bytes <;> simp_all
  omega

theorem readHead_length_le (first : UInt8) (rest : List UInt8) :
    (readHead first rest).2.length ≤ rest.length := by
  unfold readHead
  split
  · simp
  · split
    · simp
    · simp
    · split
      · exact Nat.le_trans (readTail_length_le ..) (by simp)
      · simp

/-- The characters of a byte sequence, with `none` for each malformed piece. -/
def pieces : List UInt8 → List (Option Char)
  | [] => []
  | first :: rest =>
      let head := readHead first rest
      head.1 :: pieces head.2
termination_by bytes => bytes.length
decreasing_by exact Nat.lt_succ_of_le (readHead_length_le first rest)

/-- The text that the bytes spell, or the offset of the first malformed piece. -/
def decode (bytes : List UInt8) : Except Nat (List Char) :=
  let all := pieces bytes
  if all.all Option.isSome then .ok (all.filterMap id)
  else .error (String.ofList ((all.takeWhile Option.isSome).filterMap id)).utf8ByteSize

def decodeLossy (bytes : List UInt8) : List Char :=
  (pieces bytes).map fun c? => c?.getD '\ufffd'

end Offside.Text.Utf8
