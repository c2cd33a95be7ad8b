import Offside.Proofs.Scanning.Lexeme
import Offside.Proofs.Scanning.Lockstep

/-!
# What tokens of a text carry

Whatever a text is, the name of an identifier in it is a word, an integer has no sign and is below the
limit, and a float is the rounded value of a quotient.
-/

namespace Offside

open Scan (Word)

def Payload.InRange : Payload → Prop
  | .identifier name => Word name
  | .integer value => 0 ≤ value ∧ value < Scan.integerLimit
  | .float value =>
      ∃ numerator denominator, 0 < denominator ∧
        value = .ofQuotient false numerator denominator
  | .string _ | .error _ => True

def Token.InRange (token : Token) : Prop := ∀ payload ∈ token.payload?, payload.InRange

namespace Token

variable {position : Text.Position}

theorem inRange_plain (kind : TokenKind) : (plain kind position).InRange :=
  fun _ h => nomatch h

theorem inRange_error (fault : Fault) : (error fault position).InRange := by
  rintro _ ⟨⟩
  trivial

theorem inRange_identifier {name : String} : (identifier name position).InRange ↔ Word name := by
  simp [InRange, identifier, Payload.InRange]

theorem inRange_integer {value : Int} :
    (integer value position).InRange ↔ 0 ≤ value ∧ value < Scan.integerLimit := by
  simp [InRange, integer, Payload.InRange]

end Token

namespace Scan

open Text (Cursor Position)

variable {cursor next : Cursor} {c : Char}

theorem scanWord_inRange (hread : cursor.read? = some (c, next)) (hdigit : c.isDigit = false)
    (hreserved : isReserved c = false) : (scanWord cursor).1.InRange := by
  have hspan : (cursor.span isWordChar).1 = c :: (next.span isWordChar).1 := by
    rw [Cursor.span_of_read? hread, if_pos (by simp [isWordChar, hreserved])]
  unfold scanWord
  simp only
  split
  · exact Token.inRange_plain _
  · rename_i hkeyword
    refine Token.inRange_identifier.2 ⟨?_, ⟨c, (next.span isWordChar).1, ?_, hdigit⟩, hkeyword⟩
    · intro d hd
      rw [String.toList_ofList] at hd
      exact Cursor.of_mem_span hd
    · rw [String.toList_ofList, hspan]

theorem floatToken_inRange (position : Position) (whole fraction : List Char) :
    (floatToken position whole fraction).InRange := by
  rintro _ ⟨⟩
  show ∃ numerator denominator, 0 < denominator ∧
    Number.Binary64.ofDecimal false _ _ = .ofQuotient false numerator denominator
  unfold Number.Binary64.ofDecimal
  split
  · exact ⟨_, 1, by decide, rfl⟩
  · exact ⟨_, _, Nat.pow_pos (by decide), rfl⟩

theorem scanDigits_inRange (position : Position) (radix : Nat) (announced : List Char)
    (cursor : Cursor) : (scanDigits position radix announced cursor).1.InRange := by
  unfold scanDigits
  simp only
  split
  · exact Token.inRange_error _
  · split
    · split
      · exact Token.inRange_error _
      · exact floatToken_inRange _ _ _
    · split
      · exact Token.inRange_error _
      · unfold integerToken
        simp only
        split
        · rename_i hlimit
          exact Token.inRange_integer.2 ⟨Int.natCast_nonneg _, Int.ofNat_lt.2 hlimit⟩
        · exact Token.inRange_error _

theorem scanNumber_inRange (cursor : Cursor) : (scanNumber cursor).1.InRange := by
  unfold scanNumber
  simp only
  split <;> exact scanDigits_inRange _ _ _ _

theorem scanQuotation_inRange (cursor : Cursor) : (scanQuotation cursor).1.InRange := by
  unfold scanQuotation Quotation.token
  simp only
  split
  · exact Token.inRange_error _
  · exact Token.inRange_error _
  · split
    · exact Token.inRange_error _
    · rintro _ ⟨⟩
      trivial

theorem scanSymbol_inRange (c : Char) (position : Position) (context : Context) :
    (scanSymbol c position context).1.InRange := by
  unfold scanSymbol
  split
  · exact Token.inRange_plain _
  · split
    · split
      · exact Token.inRange_plain _
      · exact Token.inRange_error _
      · exact Token.inRange_error _
    · split
      · exact Token.inRange_plain _
      · exact Token.inRange_error _

namespace Scanner

theorem scanToken_inRange {context : Context} (hread : context.cursor.read? = some (c, next)) :
    (scanToken context c next).1.InRange := by
  unfold scanToken
  split
  · exact scanNumber_inRange _
  · rename_i hdigit
    split
    · exact scanQuotation_inRange _
    · split
      · exact scanSymbol_inRange _ _ _
      · rename_i hreserved
        exact scanWord_inRange hread (Bool.eq_false_iff.2 hdigit) (Bool.eq_false_iff.2 hreserved)

theorem Given.inRange {token : Token} (h : Given token) : token.InRange := by
  cases h with
  | mark => exact Token.inRange_plain _
  | fault => exact Token.inRange_error _
  | read hread => exact scanToken_inRange hread

end Scanner

end Scan

end Offside
