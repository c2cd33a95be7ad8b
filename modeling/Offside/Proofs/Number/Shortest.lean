import Mathlib.Data.Nat.Cast.Order.Field
import Offside.Number.Shortest
import Offside.Proofs.Number.Rounding

/-!
# The shortest decimal reads back

The interval of a number holds the quotients that are rounded to it.  Seventeen digits are enough for a
decimal in the interval, so the search ends with one, and this decimal is rounded to the number.
-/

namespace Offside.Number

open Binary64 (Canonical RoundsTo leastNormal leastExponent lowGap lowGap_cases two_zpow_pos)

def Decimal.value (decimal : Decimal) : ℚ := decimal.digits * 10 ^ decimal.exponent

namespace Shortest

variable {significand n : Nat} {exponent scale : Int} {interval : Interval}

theorem ten_zpow_pos (exponent : Int) : (0 : ℚ) < 10 ^ exponent := zpow_pos (by norm_num) _

/-! ## Intervals -/

theorem denominator_intervalOf (significand : Nat) (exponent : Int) :
    0 < (intervalOf significand exponent).denominator := by
  unfold intervalOf
  simp only
  split
  · decide
  · exact Nat.mul_pos (by decide) (Nat.pow_pos (by decide))

theorem unit_intervalOf (significand : Nat) (exponent : Int) :
    ((if 0 ≤ exponent then Nat.pow 2 exponent.toNat else 1 : Nat) : ℚ) /
      (intervalOf significand exponent).denominator = 2 ^ exponent / 4 := by
  unfold intervalOf
  simp only
  split
  · rename_i hexponent
    obtain ⟨power, rfl⟩ := Int.eq_ofNat_of_zero_le hexponent
    simp
  · rename_i hexponent
    obtain ⟨power, hpower⟩ := Int.eq_ofNat_of_zero_le (a := -exponent) (by omega)
    obtain rfl : exponent = -power := by omega
    simp [mul_comm, div_eq_mul_inv]

theorem value_intervalOf (significand : Nat) (exponent : Int) :
    ((intervalOf significand exponent).value : ℚ) /
      (intervalOf significand exponent).denominator = significand * 2 ^ exponent := by
  have hvalue : (intervalOf significand exponent).value =
      4 * significand * if 0 ≤ exponent then Nat.pow 2 exponent.toNat else 1 := rfl
  rw [hvalue, Nat.cast_mul, mul_div_assoc, unit_intervalOf]
  push_cast
  ring

theorem low_intervalOf (hsignificand : 0 < significand) :
    ((intervalOf significand exponent).low : ℚ) / (intervalOf significand exponent).denominator =
      (significand - lowGap significand exponent / 4) * 2 ^ exponent := by
  have hgap : ∃ gap : Nat, gap ≤ 2 ∧ (gap : ℚ) = lowGap significand exponent ∧
      (intervalOf significand exponent).low =
        (4 * significand - gap) * if 0 ≤ exponent then Nat.pow 2 exponent.toNat else 1 := by
    refine ⟨if significand = leastNormal && leastExponent < exponent then 1 else 2, ?_, ?_, rfl⟩
    · split <;> omega
    · simp [lowGap]
  obtain ⟨gap, hgap, hcast, hlow⟩ := hgap
  rw [hlow, Nat.cast_mul, mul_div_assoc, unit_intervalOf, Nat.cast_sub (by omega), ← hcast]
  push_cast
  ring

theorem high_intervalOf (significand : Nat) (exponent : Int) :
    ((intervalOf significand exponent).high : ℚ) / (intervalOf significand exponent).denominator =
      (significand + 1 / 2) * 2 ^ exponent := by
  have hhigh : (intervalOf significand exponent).high =
      (4 * significand + 2) * if 0 ≤ exponent then Nat.pow 2 exponent.toNat else 1 := rfl
  rw [hhigh, Nat.cast_mul, mul_div_assoc, unit_intervalOf]
  push_cast
  ring

theorem scale_eq (hpos : 0 < interval.denominator) (scale : Int) :
    0 < (interval.scale scale).denominator ∧
      (interval.scale scale).closed = interval.closed ∧
      ((interval.scale scale).low : ℚ) / (interval.scale scale).denominator =
        interval.low / interval.denominator / 10 ^ scale ∧
      ((interval.scale scale).value : ℚ) / (interval.scale scale).denominator =
        interval.value / interval.denominator / 10 ^ scale ∧
      ((interval.scale scale).high : ℚ) / (interval.scale scale).denominator =
        interval.high / interval.denominator / 10 ^ scale := by
  unfold Interval.scale
  split
  · rename_i hscale
    obtain ⟨power, rfl⟩ := Int.eq_ofNat_of_zero_le hscale
    refine ⟨Nat.mul_pos hpos (Nat.pow_pos (by decide)), rfl, ?_, ?_, ?_⟩ <;> simp [div_div]
  · rename_i hscale
    obtain ⟨power, hpower⟩ := Int.eq_ofNat_of_zero_le (a := -scale) (by omega)
    obtain rfl : scale = -power := by omega
    refine ⟨hpos, rfl, ?_, ?_, ?_⟩ <;> simp [mul_div_right_comm]

theorem contains_iff (hpos : 0 < interval.denominator) :
    interval.contains n = true ↔
      (interval.low / interval.denominator : ℚ) ≤ n ∧ n ≤ (interval.high / interval.denominator : ℚ) ∧
        (n = (interval.low / interval.denominator : ℚ) ∨
          n = (interval.high / interval.denominator : ℚ) → interval.closed = true) := by
  have hcast : (0 : ℚ) < interval.denominator := by exact_mod_cast hpos
  rw [div_le_iff₀ hcast, le_div_iff₀ hcast, eq_div_iff hcast.ne', eq_div_iff hcast.ne']
  unfold Interval.contains
  simp only
  norm_cast
  cases interval.closed with
  | true => simp
  | false =>
      simp only [Bool.false_eq_true, if_false, Bool.and_eq_true, decide_eq_true_eq, imp_false]
      omega

theorem contains_scale_iff (hsignificand : 0 < significand) :
    ((intervalOf significand exponent).scale scale).contains n = true ↔
      RoundsTo (n * 10 ^ scale) significand exponent := by
  have hpower := ten_zpow_pos scale
  obtain ⟨hpos, hclosed, hlow, -, hhigh⟩ :=
    scale_eq (denominator_intervalOf significand exponent) scale
  rw [contains_iff hpos, hclosed, hlow, hhigh, low_intervalOf hsignificand, high_intervalOf,
    div_le_iff₀ hpower, le_div_iff₀ hpower, eq_div_iff hpower.ne', eq_div_iff hpower.ne']
  have heven : (intervalOf significand exponent).closed = true ↔ significand % 2 = 0 := by
    simp [intervalOf]
  rw [heven]
  exact ⟨fun ⟨hlow, hhigh, heven⟩ => ⟨hlow, hhigh, heven⟩, fun h => ⟨h.low, h.high, h.even⟩⟩

/-! ## Leading digits -/

theorem lt_pow_decimalLength (n : Nat) : n < 10 ^ decimalLength n :=
  (Nat.length_toDigits_le_iff (by decide) Nat.length_toDigits_pos).1 (le_refl _)

theorem pow_decimalLength_le (h : 0 < n) : 10 ^ (decimalLength n - 1) ≤ n := by
  rcases Nat.eq_zero_or_pos (decimalLength n - 1) with hone | hmore
  · rw [hone]
    exact h
  · rw [← Nat.not_lt, ← Nat.length_toDigits_le_iff (by decide) hmore]
    have hpos : 0 < decimalLength n := Nat.length_toDigits_pos
    exact Nat.not_le.2 (Nat.sub_lt hpos (by decide))

theorem leadingExponent_le (hpos : 0 < interval.denominator) (hvalue : 0 < interval.value) :
    (10 : ℚ) ^ leadingExponent interval ≤ interval.value / interval.denominator := by
  have hcast : (0 : ℚ) < interval.denominator := by exact_mod_cast hpos
  have hcast' : (0 : ℚ) < interval.value := by exact_mod_cast hvalue
  unfold leadingExponent
  split
  · rename_i hwhole
    have hpositive := Nat.div_pos hwhole hpos
    have hlength : 1 ≤ decimalLength (interval.value / interval.denominator) :=
      Nat.length_toDigits_pos
    have hpower := pow_decimalLength_le hpositive
    rw [Nat.le_div_iff_mul_le hpos] at hpower
    rw [le_div_iff₀ hcast, show ((decimalLength (interval.value / interval.denominator) : Int) - 1) =
      ((decimalLength (interval.value / interval.denominator) - 1 : Nat) : Int) by omega]
    exact_mod_cast hpower
  · rename_i hfraction
    simp only
    generalize hratio : (interval.denominator + interval.value - 1) / interval.value = ratio
    have hlength := lt_pow_decimalLength (ratio - 1)
    have hceiling : interval.denominator ≤ ratio * interval.value := by
      rw [← hratio]
      have hdiv := Nat.div_add_mod (interval.denominator + interval.value - 1) interval.value
      have hless := Nat.mod_lt (interval.denominator + interval.value - 1) hvalue
      rw [mul_comm] at hdiv
      omega
    have hbound : interval.denominator ≤ 10 ^ decimalLength (ratio - 1) * interval.value :=
      le_trans hceiling (Nat.mul_le_mul_right _ (by omega))
    rw [show Int.neg (decimalLength (ratio - 1)) = -(decimalLength (ratio - 1) : Int) from rfl,
      zpow_neg, inv_le_comm₀ (by positivity) (by positivity), inv_div, div_le_iff₀ hcast']
    exact_mod_cast hbound

/-! ## The search -/

theorem contains_of_nearestIn? {tie : Tie} (h : nearestIn? tie interval = some n) :
    interval.contains n = true := by
  unfold nearestIn? at h
  simp only at h
  split at h
  · cases h
  · cases h
    assumption
  · cases h
    assumption
  · rename_i hbelow habove
    split at h
    · cases h
      exact hbelow
    · split at h
      · cases h
        exact habove
      · cases tie with
        | up =>
            cases h
            exact habove
        | even =>
            cases h
            split
            · exact hbelow
            · exact habove

theorem not_contains_of_nearestIn? {tie : Tie} (h : nearestIn? tie interval = none) :
    interval.contains (interval.value / interval.denominator) = false ∧
      interval.contains (interval.value / interval.denominator + 1) = false := by
  unfold nearestIn? at h
  simp only at h
  split at h
  · exact ⟨‹_›, ‹_›⟩
  · cases h
  · cases h
  · split at h
    · cases h
    · split at h
      · cases h
      · cases tie <;> cases h

theorem contains_search {tie : Tie} {leading : Int} {limit count : Nat} (further : Nat)
    (hfurther : further < limit)
    (h : nearestIn? tie (interval.scale (leading + 1 - (count + further : Nat))) ≠ none) :
    (interval.scale (search tie interval leading limit count).exponent).contains
      (search tie interval leading limit count).digits = true := by
  induction limit generalizing count further with
  | zero => omega
  | succ limit ih =>
      unfold search
      simp only
      cases hnearest : nearestIn? tie (interval.scale (leading + 1 - count)) with
      | some digits => exact contains_of_nearestIn? hnearest
      | none =>
          cases further with
          | zero => exact absurd hnearest h
          | succ further =>
              refine ih further (by omega) ?_
              rw [show count + 1 + further = count + (further + 1) by omega]
              exact h

/-! ## Seventeen digits -/

theorem roundsTo_of_lt {x : ℚ}
    (hlow : (significand - lowGap significand exponent / 4) * 2 ^ exponent < x)
    (hhigh : x < (significand + 1 / 2) * 2 ^ exponent) : RoundsTo x significand exponent where
  low := hlow.le
  high := hhigh.le
  even := fun h => h.elim (fun h => absurd h hlow.ne') (fun h => absurd h hhigh.ne)

theorem grid_lt (hbounded : significand < 2 * leastNormal)
    (hgrid : (10 : ℚ) ^ scale * 10 ^ 16 ≤ significand * 2 ^ exponent) :
    (10 : ℚ) ^ scale < lowGap significand exponent / 2 * 2 ^ exponent := by
  have hpower := two_zpow_pos exponent
  have hcast : (significand : ℚ) + 1 ≤ 2 * leastNormal := by exact_mod_cast hbounded
  have hnormal : (leastNormal : ℚ) = 4503599627370496 := by norm_num [leastNormal]
  rcases lowGap_cases significand exponent with hgap | ⟨hgap, rfl, -⟩
  · rw [hgap]
    nlinarith
  · rw [hgap]
    rw [hnormal] at hgrid
    linarith

theorem nearestIn?_ne_none (tie : Tie) (hsignificand : 0 < significand)
    (hbounded : significand < 2 * leastNormal)
    (hgrid : (10 : ℚ) ^ scale * 10 ^ 16 ≤ significand * 2 ^ exponent) :
    nearestIn? tie ((intervalOf significand exponent).scale scale) ≠ none := by
  intro hnone
  have hpower := two_zpow_pos exponent
  have hfine := grid_lt hbounded hgrid
  obtain ⟨hpos, -, -, hvalue, -⟩ := scale_eq (denominator_intervalOf significand exponent) scale
  obtain ⟨hbelow, habove⟩ := not_contains_of_nearestIn? hnone
  rw [Bool.eq_false_iff, ne_eq, contains_scale_iff hsignificand] at hbelow habove
  have hfloor : (((intervalOf significand exponent).scale scale).value /
        ((intervalOf significand exponent).scale scale).denominator : Nat) * (10 : ℚ) ^ scale ≤
          significand * 2 ^ exponent ∧
      significand * (2 : ℚ) ^ exponent <
        ((((intervalOf significand exponent).scale scale).value /
          ((intervalOf significand exponent).scale scale).denominator + 1 : Nat) : ℚ) *
            10 ^ scale := by
    rw [← value_intervalOf, ← le_div_iff₀ (ten_zpow_pos scale), ← div_lt_iff₀ (ten_zpow_pos scale),
      ← hvalue]
    have hcast : (0 : ℚ) < ((intervalOf significand exponent).scale scale).denominator := by
      exact_mod_cast hpos
    constructor
    · exact Nat.cast_div_le
    · rw [div_lt_iff₀ hcast]
      exact_mod_cast Nat.lt_mul_of_div_lt (Nat.lt_succ_self _) hpos
  generalize ((intervalOf significand exponent).scale scale).value /
    ((intervalOf significand exponent).scale scale).denominator = floor at hfloor hbelow habove
  obtain ⟨hle, hlt⟩ := hfloor
  push_cast at hlt habove
  have hgap : lowGap significand exponent ≤ 2 ∧ 0 < lowGap significand exponent := by
    rcases lowGap_cases significand exponent with hgap | ⟨hgap, -⟩ <;> rw [hgap] <;> norm_num
  have hunit : lowGap significand exponent / 2 * 2 ^ exponent ≤ 2 ^ exponent := by nlinarith
  have hquarter : 0 < lowGap significand exponent * 2 ^ exponent := mul_pos hgap.2 hpower
  by_cases hnear : significand * (2 : ℚ) ^ exponent - floor * 10 ^ scale ≤ 10 ^ scale / 2
  · exact hbelow (roundsTo_of_lt (by linarith) (by linarith))
  · exact habove (roundsTo_of_lt (by linarith) (by linarith))

end Shortest

open Shortest

variable {significand : Nat} {exponent : Int}

theorem shortest_roundsTo (tie : Tie) (hsignificand : 0 < significand)
    (hbounded : significand < 2 * leastNormal) :
    RoundsTo (shortest tie significand exponent).value significand exponent := by
  have hpos := denominator_intervalOf significand exponent
  have hvalue := value_intervalOf significand exponent
  have hpower := two_zpow_pos exponent
  have hcast : (0 : ℚ) < significand := by exact_mod_cast hsignificand
  have hpositive : 0 < (intervalOf significand exponent).value := by
    have hquotient : (0 : ℚ) < (intervalOf significand exponent).value /
        (intervalOf significand exponent).denominator := by
      rw [hvalue]
      positivity
    rw [div_pos_iff_of_pos_right (by exact_mod_cast hpos)] at hquotient
    exact_mod_cast hquotient
  have hleading := leadingExponent_le hpos hpositive
  rw [hvalue] at hleading
  rw [Decimal.value, ← contains_scale_iff hsignificand]
  refine contains_search 16 (by decide) (nearestIn?_ne_none tie hsignificand hbounded ?_)
  rw [← zpow_natCast, ← zpow_add₀ (by norm_num)]
  refine le_trans (le_of_eq ?_) hleading
  congr 1
  omega

end Offside.Number
