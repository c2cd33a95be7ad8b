import Mathlib.Data.List.TakeWhile
import Offside.Number.Style
import Offside.Proofs.Number.Shortest
import Offside.Proofs.Scanning.Lexeme

/-!
# Numbers without an exponent

A number is written without an exponent exactly if its magnitude is between the two bounds of the
style, although the decision is made for its shortest decimal.  The digits around the point have the
value of that decimal.
-/

namespace Offside.Number

open Binary64 (Canonical RoundsTo leastNormal ofQuotient)
open Scan (digitsValue)

variable {significand numerator denominator : Nat} {exponent : Int} {tie : Tie}

/-! ## Magnitudes -/

/-- What lies between a number and a quotient that is rounded to it is rounded to it, too. -/
theorem roundsTo_between {x y : ℚ} (h : RoundsTo x significand exponent)
    (hy : significand * 2 ^ exponent < y ∧ y ≤ x ∨ x < y ∧ y ≤ significand * 2 ^ exponent) :
    RoundsTo y significand exponent := by
  have hpower := Binary64.two_zpow_pos exponent
  have hgap : 0 < Binary64.lowGap significand exponent * 2 ^ exponent := by
    apply mul_pos _ hpower
    rcases Binary64.lowGap_cases significand exponent with hgap | ⟨hgap, -⟩ <;> rw [hgap] <;> norm_num
  have hlow := h.low
  have hhigh := h.high
  rcases hy with ⟨habove, hle⟩ | ⟨hbelow, hle⟩
  · refine ⟨by linarith, by linarith, ?_⟩
    rintro (heq | heq)
    · linarith
    · exact h.even (.inr (by linarith))
  · refine ⟨by linarith, by linarith, ?_⟩
    rintro (heq | heq)
    · exact h.even (.inl (by linarith))
    · linarith

/-- The shortest decimal stands on the same side of a quotient as the number, if the number nearest to
the quotient is not below it and has the quotient as its own shortest decimal. -/
theorem value_lt_iff (bound : Nat) (power : Int) (hpos : 0 < denominator)
    (hbound : ofQuotient false numerator denominator = .finite false bound power)
    (hnumber : (numerator / denominator : ℚ) ≤ bound * 2 ^ power)
    (hshortest : (shortest tie bound power).value = numerator / denominator)
    (hcanonical : Canonical significand exponent) (hsignificand : 0 < significand) :
    (shortest tie significand exponent).value < numerator / denominator ↔
      (significand * 2 ^ exponent : ℚ) < numerator / denominator := by
  have hrounds := @shortest_roundsTo _ exponent tie hsignificand hcanonical.bounded
  have hsame : RoundsTo (numerator / denominator) significand exponent →
      significand = bound ∧ exponent = power := by
    intro h
    have hequal := Binary64.ofQuotient_eq false hpos hcanonical hsignificand h
    rw [hbound] at hequal
    cases hequal
    exact ⟨rfl, rfl⟩
  constructor
  · intro hless
    by_contra habove
    obtain ⟨rfl, rfl⟩ := hsame (roundsTo_between hrounds (.inr ⟨hless, not_lt.1 habove⟩))
    exact hless.ne hshortest
  · intro hless
    by_contra habove
    obtain ⟨rfl, rfl⟩ := hsame (roundsTo_between hrounds (.inl ⟨hless, not_lt.1 habove⟩))
    exact absurd hless (not_lt.2 hnumber)

def Decimal.leading (decimal : Decimal) : Int :=
  decimal.exponent + (Shortest.decimalLength decimal.digits : Int) - 1

theorem ten_zpow_add (count : Nat) (exponent : Int) :
    (10 : ℚ) ^ (count + exponent) = (10 ^ count : Nat) * 10 ^ exponent := by
  rw [zpow_add₀ (by norm_num), zpow_natCast, Nat.cast_pow, Nat.cast_ofNat]

theorem Decimal.leading_lt_iff {decimal : Decimal} (h : 0 < decimal.digits) (power : Int) :
    decimal.leading < power ↔ decimal.value < 10 ^ power := by
  have hlow := Shortest.pow_decimalLength_le h
  have hhigh := Shortest.lt_pow_decimalLength decimal.digits
  have hlength : 0 < Shortest.decimalLength decimal.digits := Nat.length_toDigits_pos
  have hunit := Shortest.ten_zpow_pos decimal.exponent
  have hstart : (10 : ℚ) ^ decimal.leading ≤ decimal.value := by
    have hleading : decimal.leading =
        (Shortest.decimalLength decimal.digits - 1 : Nat) + decimal.exponent := by
      rw [Decimal.leading]
      omega
    rw [hleading, ten_zpow_add, Decimal.value]
    exact mul_le_mul_of_nonneg_right (by exact_mod_cast hlow) hunit.le
  have hend : decimal.value < (10 : ℚ) ^ (decimal.leading + 1) := by
    have hleading : decimal.leading + 1 =
        Shortest.decimalLength decimal.digits + decimal.exponent := by
      rw [Decimal.leading]
      omega
    rw [hleading, ten_zpow_add, Decimal.value]
    exact mul_lt_mul_of_pos_right (by exact_mod_cast hhigh) hunit
  constructor
  · intro hless
    exact lt_of_lt_of_le hend (zpow_le_zpow_right₀ (by norm_num) (by omega))
  · intro hless
    have hpowers := lt_of_le_of_lt hstart hless
    rwa [zpow_lt_zpow_iff_right₀ (by norm_num)] at hpowers

theorem digits_shortest_pos (hsignificand : 0 < significand)
    (hbounded : significand < 2 * leastNormal) : 0 < (shortest tie significand exponent).digits := by
  have hvalue := (@shortest_roundsTo _ exponent tie hsignificand hbounded).pos hsignificand
  apply Nat.pos_of_ne_zero
  intro hzero
  rw [Decimal.value, hzero] at hvalue
  simp at hvalue

/-- The style of listings writes the numbers from a ten thousandth up to ten to the sixteenth without
an exponent. -/
theorem plain_iff (hcanonical : Canonical significand exponent) (hsignificand : 0 < significand) :
    (Style.listing.plainFrom ≤ (shortest .up significand exponent).leading ∧
        (shortest .up significand exponent).leading ≤ Style.listing.plainTo) ↔
      (1 / 10 ^ 4 : ℚ) ≤ significand * 2 ^ exponent ∧ (significand * 2 ^ exponent : ℚ) < 10 ^ 16 := by
  have hdigits := @digits_shortest_pos _ exponent .up hsignificand hcanonical.bounded
  have hleast : (shortest .up significand exponent).value < ((1 : Nat) / (10000 : Nat) : ℚ) ↔
      (significand * 2 ^ exponent : ℚ) < ((1 : Nat) / (10000 : Nat) : ℚ) := by
    refine value_lt_iff 7378697629483821 (-66) (by decide) (by decide +kernel)
      (by norm_num) ?_ hcanonical hsignificand
    rw [show shortest .up 7378697629483821 (-66) = ⟨1, -4⟩ by decide +kernel, Decimal.value]
    norm_num
  have hgreatest : (shortest .up significand exponent).value < ((10 ^ 16 : Nat) / (1 : Nat) : ℚ) ↔
      (significand * 2 ^ exponent : ℚ) < ((10 ^ 16 : Nat) / (1 : Nat) : ℚ) := by
    refine value_lt_iff 5000000000000000 1 (by decide) (by decide +kernel)
      (by norm_num) ?_ hcanonical hsignificand
    rw [show shortest .up 5000000000000000 1 = ⟨1, 16⟩ by decide +kernel, Decimal.value]
    norm_num
  have hfrom := Decimal.leading_lt_iff hdigits (-4)
  have hto := Decimal.leading_lt_iff hdigits 16
  norm_num at hleast hgreatest hfrom hto ⊢
  refine and_congr ?_ ?_
  · rw [show Style.listing.plainFrom = -4 from rfl, ← not_lt, hfrom, hleast, not_lt]
  · rw [show Style.listing.plainTo = 15 from rfl, ← Int.lt_add_one_iff, ← hgreatest, ← hto]
    norm_num

/-! ## Digits -/

theorem digitsValue_append (front back : List Char) :
    digitsValue 10 (front ++ back) = digitsValue 10 front * 10 ^ back.length + digitsValue 10 back := by
  have hfold : ∀ (digits : List Char) (start : Nat),
      digits.foldl (fun value c => value * 10 + (digitValue? c).getD 0) start =
        start * 10 ^ digits.length + digitsValue 10 digits := by
    intro digits
    induction digits with
    | nil => simp [digitsValue]
    | cons c digits ih =>
        intro start
        have hcons : digitsValue 10 (c :: digits) =
            (0 * 10 + (digitValue? c).getD 0) * 10 ^ digits.length + digitsValue 10 digits := ih _
        rw [List.foldl_cons, ih, hcons, List.length_cons, Nat.pow_succ]
        ring
  rw [digitsValue, List.foldl_append, hfold]
  rfl

theorem digitsValue_zeros (count : Nat) : digitsValue 10 (List.replicate count '0') = 0 := by
  induction count with
  | zero => rfl
  | succ count ih =>
      show digitsValue 10 (['0'] ++ List.replicate count '0') = 0
      rw [digitsValue_append, ih, Nat.add_zero]
      exact Nat.zero_mul _

theorem isDigit_zeros (count : Nat) : ∀ c ∈ List.replicate count '0', c.isDigit = true := by
  intro c hc
  rw [List.eq_of_mem_replicate hc]
  rfl

theorem exists_zeros (n : Nat) :
    ∃ count, Nat.toDigits 10 n = significantDigits n ++ List.replicate count '0' := by
  refine ⟨((Nat.toDigits 10 n).reverse.takeWhile (· == '0')).length, ?_⟩
  have hsplit := @List.takeWhile_append_dropWhile _ (· == '0') (Nat.toDigits 10 n).reverse
  have hzeros : (Nat.toDigits 10 n).reverse.takeWhile (· == '0') =
      List.replicate ((Nat.toDigits 10 n).reverse.takeWhile (· == '0')).length '0' := by
    rw [List.eq_replicate_iff]
    refine ⟨rfl, fun c hc => ?_⟩
    simpa using List.mem_takeWhile_imp hc
  have hreverse := congrArg List.reverse hsplit
  rw [List.reverse_append, List.reverse_reverse, hzeros, List.reverse_replicate] at hreverse
  exact hreverse.symm

theorem isDigit_significantDigits (n : Nat) : ∀ c ∈ significantDigits n, c.isDigit = true := by
  intro c hc
  obtain ⟨count, hdigits⟩ := exists_zeros n
  have hmem : c ∈ Nat.toDigits 10 n := hdigits ▸ List.mem_append_left _ hc
  exact Nat.isDigit_of_mem_toDigits (by omega) (by omega) hmem

theorem significantDigits_ne_nil {n : Nat} (h : 0 < n) : significantDigits n ≠ [] := by
  intro hnil
  obtain ⟨count, hdigits⟩ := exists_zeros n
  have hvalue := Scan.digitsValue_toDigits n
  rw [hdigits, hnil, List.nil_append, digitsValue_zeros] at hvalue
  omega

theorem Decimal.value_eq (decimal : Decimal) :
    decimal.value = digitsValue 10 (significantDigits decimal.digits) *
      10 ^ (decimal.leading + 1 - (significantDigits decimal.digits).length) := by
  obtain ⟨count, hdigits⟩ := exists_zeros decimal.digits
  have hvalue := Scan.digitsValue_toDigits decimal.digits
  have hlength : Shortest.decimalLength decimal.digits =
      (significantDigits decimal.digits).length + count := by
    rw [Shortest.decimalLength, hdigits, List.length_append, List.length_replicate]
  rw [hdigits, digitsValue_append, digitsValue_zeros, List.length_replicate, Nat.add_zero] at hvalue
  have hexponent : decimal.leading + 1 - (significantDigits decimal.digits).length =
      count + decimal.exponent := by
    rw [Decimal.leading, hlength]
    omega
  rw [Decimal.value, hexponent, ten_zpow_add, ← mul_assoc, ← Nat.cast_mul, hvalue]

structure Pointed (text whole fraction : List Char) : Prop where
  text : text = whole ++ '.' :: fraction
  whole_ne : whole ≠ []
  fraction_ne : fraction ≠ []
  digit : ∀ c ∈ whole ++ fraction, c.isDigit = true

theorem exists_plainText {digits : List Char} (hdigits : ∀ c ∈ digits, c.isDigit = true)
    (hne : digits ≠ []) (leading : Int) :
    ∃ whole fraction, Pointed (plainText digits leading) whole fraction ∧
      (digitsValue 10 (whole ++ fraction) / 10 ^ fraction.length : ℚ) =
        digitsValue 10 digits * 10 ^ (leading + 1 - digits.length) := by
  unfold plainText
  split
  · rename_i hnegative
    obtain ⟨zeros, hzeros⟩ := Int.eq_ofNat_of_zero_le (a := -leading - 1) (by omega)
    refine ⟨['0'], List.replicate (-leading - 1).toNat '0' ++ digits,
      ⟨rfl, by simp, by simp [hne], ?_⟩, ?_⟩
    · simp only [List.forall_mem_append]
      exact ⟨isDigit_zeros 1, isDigit_zeros _, hdigits⟩
    · rw [digitsValue_append, digitsValue_append, digitsValue_zeros, List.length_append,
        List.length_replicate, hzeros, show leading + 1 - (digits.length : Int) =
          -((zeros + digits.length : Nat) : Int) by omega, zpow_neg, zpow_natCast, ← div_eq_mul_inv]
      simp [digitsValue, digitValue?]
  · rename_i hnatural
    obtain ⟨power, rfl⟩ := Int.eq_ofNat_of_zero_le (not_lt.1 hnatural)
    simp only [Int.toNat_natCast]
    by_cases hshort : digits.length ≤ power + 1
    · rw [List.take_of_length_le hshort, List.drop_of_length_le hshort]
      refine ⟨digits ++ List.replicate (power + 1 - digits.length) '0', ['0'],
        ⟨by simp, by simp [hne], by simp, ?_⟩, ?_⟩
      · simp only [List.forall_mem_append]
        exact ⟨⟨hdigits, isDigit_zeros _⟩, isDigit_zeros 1⟩
      · rw [digitsValue_append, digitsValue_append, digitsValue_zeros, List.length_replicate,
          show ((power : Int) + 1 - (digits.length : Int)) =
            ((power + 1 - digits.length : Nat) : Int) by omega, zpow_natCast]
        simp [digitsValue, digitValue?]
    · have hlong : power + 1 < digits.length := not_le.1 hshort
      have hdrop : (digits.drop (power + 1)).isEmpty = false := by
        simp [hlong]
      rw [show power + 1 - digits.length = 0 by omega]
      refine ⟨digits.take (power + 1), digits.drop (power + 1),
        ⟨by simp [hdrop], by simp [hne], by simpa using hlong, ?_⟩, ?_⟩
      · rw [List.take_append_drop]
        exact hdigits
      · rw [List.take_append_drop, List.length_drop, show ((power : Int) + 1 - (digits.length : Int)) =
          -((digits.length - (power + 1) : Nat) : Int) by omega, zpow_neg, zpow_natCast,
          div_eq_mul_inv]

/-! ## Written numbers -/

/-- A magnitude that is written without an exponent. -/
def PlainMagnitude (significand : Nat) (exponent : Int) : Prop :=
  significand = 0 ∨
    (1 / 10 ^ 4 : ℚ) ≤ significand * 2 ^ exponent ∧ (significand * 2 ^ exponent : ℚ) < 10 ^ 16

theorem Style.magnitude_eq (style : Style) (h : significand ≠ 0) :
    style.magnitude significand exponent =
      if style.plainFrom ≤ (shortest style.tie significand exponent).leading ∧
          (shortest style.tie significand exponent).leading ≤ style.plainTo then
        plainText (significantDigits (shortest style.tie significand exponent).digits)
          (shortest style.tie significand exponent).leading
      else exponentText style.exponentPlus
        (significantDigits (shortest style.tie significand exponent).digits)
        (shortest style.tie significand exponent).leading := by
  unfold Style.magnitude
  rw [if_neg h]
  simp only [Bool.and_eq_true, decide_eq_true_eq]
  rfl

/-- A plain magnitude is written as digits around a point, of which it is the nearest number. -/
theorem exists_pointed (hcanonical : Canonical significand exponent)
    (hplain : PlainMagnitude significand exponent) :
    ∃ whole fraction, Pointed (Style.listing.magnitude significand exponent) whole fraction ∧
      Binary64.ofDecimal false (digitsValue 10 (whole ++ fraction)) (-fraction.length) =
        .finite false significand exponent := by
  rcases Nat.eq_zero_or_pos significand with rfl | hsignificand
  · obtain rfl : exponent = Binary64.leastExponent := by
      rcases hcanonical.normal with hnormal | hexponent
      · exact absurd hnormal (by decide)
      · exact hexponent
    exact ⟨['0'], ['0'], ⟨rfl, by simp, by simp, isDigit_zeros 2⟩, by decide⟩
  · have hbounds := hplain.resolve_left (Nat.ne_of_gt hsignificand)
    rw [← plain_iff hcanonical hsignificand] at hbounds
    have hdigits := @digits_shortest_pos _ exponent .up hsignificand hcanonical.bounded
    have hrounds := @shortest_roundsTo _ exponent .up hsignificand hcanonical.bounded
    have hmagnitude :=
      (@Style.magnitude_eq _ exponent .listing (Nat.ne_of_gt hsignificand)).trans (if_pos hbounds)
    rw [show Style.listing.tie = .up from rfl] at hmagnitude
    obtain ⟨whole, fraction, hpointed, hvalue⟩ := exists_plainText
      (isDigit_significantDigits (shortest .up significand exponent).digits)
      (significantDigits_ne_nil hdigits) (shortest .up significand exponent).leading
    rw [← hmagnitude] at hpointed
    rw [← Decimal.value_eq] at hvalue
    refine ⟨whole, fraction, hpointed, ?_⟩
    have hlength : 0 < fraction.length := List.length_pos_iff.2 hpointed.fraction_ne
    unfold Binary64.ofDecimal
    rw [if_neg (by omega), neg_neg, Int.toNat_natCast]
    refine Binary64.ofQuotient_eq false (Nat.pow_pos (by decide)) hcanonical hsignificand ?_
    rw [Nat.pow_eq, Nat.cast_pow, Nat.cast_ofNat, hvalue]
    exact hrounds

theorem exists_exponentText (hcanonical : Canonical significand exponent)
    (hplain : ¬ PlainMagnitude significand exponent) :
    ∃ mantissa behind, Style.listing.magnitude significand exponent = mantissa ++ 'e' :: behind ∧
      ((∃ digit, mantissa = [digit] ∧ digit.isDigit = true) ∨
        ∃ whole fraction, Pointed mantissa whole fraction) := by
  obtain ⟨hzero, hbounds⟩ := not_or.1 hplain
  have hsignificand := Nat.pos_of_ne_zero hzero
  rw [← plain_iff hcanonical hsignificand] at hbounds
  have hdigits := isDigit_significantDigits (shortest .up significand exponent).digits
  rw [(Style.magnitude_eq .listing hzero).trans (if_neg hbounds),
    show Style.listing.tie = .up from rfl]
  cases hcase : significantDigits (shortest .up significand exponent).digits with
  | nil =>
      exact absurd hcase
        (significantDigits_ne_nil (digits_shortest_pos hsignificand hcanonical.bounded))
  | cons digit fraction =>
      rw [hcase] at hdigits
      cases fraction with
      | nil => exact ⟨[digit], _, rfl, .inl ⟨digit, rfl, hdigits digit (by simp)⟩⟩
      | cons second fraction =>
          refine ⟨digit :: '.' :: second :: fraction, _, List.append_assoc .., .inr
            ⟨[digit], second :: fraction, rfl, by simp, by simp, hdigits⟩⟩

end Offside.Number
