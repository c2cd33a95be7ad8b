import Mathlib.Algebra.Order.Field.Power
import Mathlib.Algebra.Order.Field.Rat
import Mathlib.Tactic.FieldSimp
import Mathlib.Tactic.Linarith
import Mathlib.Tactic.NormNum
import Mathlib.Tactic.Positivity
import Mathlib.Tactic.Ring
import Offside.Number.Binary64

/-!
# Rounding to the nearest number

A quotient is scaled by the power of two that leaves 53 bits before the point, or by the least one,
and rounded to an integer.  What comes out is canonical: its significand has 53 bits, or its exponent
is the least one.  Every quotient between the midpoints to the neighbours of a canonical number is
rounded to it, the midpoints included exactly if its significand is even.
-/

namespace Offside.Number.Binary64

structure Canonical (significand : Nat) (exponent : Int) : Prop where
  bounded : significand < 2 * leastNormal
  least : leastExponent ≤ exponent
  greatest : exponent ≤ greatestExponent
  normal : leastNormal ≤ significand ∨ exponent = leastExponent

variable {numerator denominator rounded significand : Nat} {exponent exponent' : Int} {x : ℚ}

theorem two_zpow_pos (exponent : Int) : (0 : ℚ) < 2 ^ exponent := zpow_pos (by norm_num) _

/-! ## Quotients -/

/-- The distance to the integer is at most a half, and it is a half only if the integer is even. -/
structure Nearest (x : ℚ) (rounded : Nat) : Prop where
  low : rounded - 1 / 2 ≤ x
  high : x ≤ rounded + 1 / 2
  even : x = rounded - 1 / 2 ∨ x = rounded + 1 / 2 → rounded % 2 = 0

theorem Nearest.unique {rounded' : Nat} (h : Nearest x rounded) (h' : Nearest x rounded') :
    rounded = rounded' := by
  have hless : ∀ {small large : Nat}, Nearest x small → Nearest x large → ¬ small < large := by
    intro small large hsmall hlarge hlt
    have hcast : (small : ℚ) + 1 ≤ large := by exact_mod_cast hlt
    have hhigh := hsmall.high
    have hlow := hlarge.low
    have heven := hsmall.even (.inr (by linarith))
    have heven' := hlarge.even (.inl (by linarith))
    have hnext : (large : ℚ) = small + 1 := by linarith
    have hnext : large = small + 1 := by exact_mod_cast hnext
    omega
  exact Nat.le_antisymm (Nat.not_lt.1 (hless h' h)) (Nat.not_lt.1 (hless h h'))

theorem nearest_roundQuotient (numerator : Nat) {denominator : Nat} (hpos : 0 < denominator) :
    Nearest (numerator / denominator) (roundQuotient numerator denominator) := by
  have hdiv := Nat.div_add_mod numerator denominator
  have hless := Nat.mod_lt numerator hpos
  unfold roundQuotient
  simp only
  generalize numerator / denominator = quotient at hdiv ⊢
  generalize numerator % denominator = left at hdiv hless ⊢
  have hcast : (0 : ℚ) < denominator := by exact_mod_cast hpos
  have hx : (numerator / denominator : ℚ) = quotient + left / denominator := by
    rw [← hdiv]
    push_cast
    field_simp
  have hstart : (0 : ℚ) ≤ left / denominator := by positivity
  have hend : (left : ℚ) / denominator < 1 := by
    rw [div_lt_one hcast]
    exact_mod_cast hless
  have hhalf : denominator < 2 * left ↔ (1 / 2 : ℚ) < left / denominator := by
    rw [lt_div_iff₀ hcast, ← @Nat.cast_lt ℚ]
    push_cast
    constructor <;> intro h <;> linarith
  have htie : 2 * left = denominator ↔ (left / denominator : ℚ) = 1 / 2 := by
    rw [div_eq_iff hcast.ne', ← @Nat.cast_inj ℚ]
    push_cast
    constructor <;> intro h <;> linarith
  rw [hx]
  simp only [Bool.or_eq_true, Bool.and_eq_true, decide_eq_true_eq, hhalf, htie]
  split
  · rename_i hup
    constructor
    · push_cast
      rcases hup with hup | ⟨hup, -⟩ <;> linarith
    · push_cast
      linarith
    · push_cast
      rintro (hlow | hhigh)
      · rcases hup with hup | ⟨-, hodd⟩
        · linarith
        · omega
      · linarith
  · rename_i hdown
    rw [not_or, not_and] at hdown
    constructor
    · linarith
    · linarith [not_lt.1 hdown.1]
    · rintro (hlow | hhigh)
      · linarith
      · have := hdown.2 (by linarith)
        omega

/-! ## Exponents -/

theorem scaleDown_eq (hpos : 0 < denominator) (exponent : Int) :
    0 < (scaleDown numerator denominator exponent).2 ∧
      ((scaleDown numerator denominator exponent).1 : ℚ) /
          (scaleDown numerator denominator exponent).2 =
        numerator / denominator / 2 ^ exponent := by
  unfold scaleDown
  split
  · rename_i hexponent
    obtain ⟨power, rfl⟩ := Int.eq_ofNat_of_zero_le hexponent
    refine ⟨Nat.mul_pos hpos (Nat.pow_pos (by decide)), ?_⟩
    simp [div_div]
  · rename_i hexponent
    obtain ⟨power, hpower⟩ := Int.eq_ofNat_of_zero_le (a := -exponent) (by omega)
    obtain rfl : exponent = -power := by omega
    refine ⟨hpos, ?_⟩
    simp [mul_div_right_comm]

structure Normalizes (x : ℚ) (exponent : Int) : Prop where
  low : leastNormal * 2 ^ exponent ≤ x
  high : x < leastNormal * 2 ^ (exponent + 1)

theorem Normalizes.le_of_lt (h : Normalizes x exponent)
    (hx : x < leastNormal * 2 ^ (exponent' + 1)) : exponent ≤ exponent' := by
  have hnormal : (0 : ℚ) < leastNormal := by norm_num [leastNormal]
  have hlt := lt_of_le_of_lt h.low hx
  rw [mul_lt_mul_iff_right₀ hnormal, zpow_lt_zpow_iff_right₀ (by norm_num)] at hlt
  omega

theorem Normalizes.unique (h : Normalizes x exponent) (h' : Normalizes x exponent') :
    exponent = exponent' :=
  Int.le_antisymm (h.le_of_lt h'.high) (h'.le_of_lt h.high)

theorem two_zpow_succ (exponent : Int) : (2 : ℚ) ^ (exponent + 1) = 2 * 2 ^ exponent := by
  rw [zpow_add_one₀ (by norm_num), mul_comm]

theorem log2_bounds (h : 0 < numerator) :
    (2 : ℚ) ^ (numerator.log2 : Int) ≤ numerator ∧
      (numerator : ℚ) < 2 ^ ((numerator.log2 : Int) + 1) := by
  constructor
  · have hlow := Nat.log2_self_le (Nat.ne_of_gt h)
    exact_mod_cast hlow
  · have hhigh := @Nat.lt_log2_self numerator
    exact_mod_cast hhigh

theorem estimate_bounds (hnumerator : 0 < numerator) (hpos : 0 < denominator) :
    leastNormal * 2 ^ ((numerator.log2 : Int) - denominator.log2 - 53) ≤
        (numerator / denominator : ℚ) ∧
      (numerator / denominator : ℚ) <
        leastNormal * 2 ^ ((numerator.log2 : Int) - denominator.log2 - 53 + 2) := by
  obtain ⟨hlow, hhigh⟩ := log2_bounds hnumerator
  obtain ⟨hlow', hhigh'⟩ := log2_bounds hpos
  have hcast : (0 : ℚ) < denominator := by exact_mod_cast hpos
  have hnormal : (leastNormal : ℚ) = 2 ^ (52 : Int) := by norm_num [leastNormal]
  rw [hnormal, ← zpow_add₀ (by norm_num), ← zpow_add₀ (by norm_num)]
  constructor
  · rw [le_div_iff₀ hcast]
    calc (2 : ℚ) ^ (52 + ((numerator.log2 : Int) - denominator.log2 - 53)) * denominator
        ≤ 2 ^ (52 + ((numerator.log2 : Int) - denominator.log2 - 53)) *
            2 ^ ((denominator.log2 : Int) + 1) :=
          mul_le_mul_of_nonneg_left hhigh'.le (two_zpow_pos _).le
      _ = 2 ^ (numerator.log2 : Int) := by
          rw [← zpow_add₀ (by norm_num)]
          congr 1
          omega
      _ ≤ numerator := hlow
  · rw [div_lt_iff₀ hcast]
    calc (numerator : ℚ)
        < 2 ^ ((numerator.log2 : Int) + 1) := hhigh
      _ = 2 ^ (52 + ((numerator.log2 : Int) - denominator.log2 - 53 + 2)) *
            2 ^ (denominator.log2 : Int) := by
          rw [← zpow_add₀ (by norm_num)]
          congr 1
          omega
      _ ≤ _ := mul_le_mul_of_nonneg_left hlow' (two_zpow_pos _).le

theorem exists_exponentFor (hnumerator : 0 < numerator) (hpos : 0 < denominator) :
    ∃ exponent, Normalizes (numerator / denominator) exponent ∧
      exponentFor numerator denominator = max exponent leastExponent := by
  obtain ⟨hlow, hhigh⟩ := estimate_bounds hnumerator hpos
  unfold exponentFor
  simp only
  generalize (numerator.log2 : Int) - denominator.log2 - 53 = estimate at hlow hhigh ⊢
  obtain ⟨hscaled, hvalue⟩ := @scaleDown_eq numerator _ hpos estimate
  have hwhole : (scaleDown numerator denominator estimate).1 /
        (scaleDown numerator denominator estimate).2 < 2 * leastNormal ↔
      (numerator / denominator : ℚ) < leastNormal * 2 ^ (estimate + 1) := by
    have hcast : (0 : ℚ) < (scaleDown numerator denominator estimate).2 := by
      exact_mod_cast hscaled
    rw [Nat.div_lt_iff_lt_mul hscaled, ← @Nat.cast_lt ℚ, Nat.cast_mul, ← div_lt_iff₀ hcast, hvalue,
      div_lt_iff₀ (two_zpow_pos _), two_zpow_succ]
    push_cast
    rw [show (leastNormal : ℚ) * (2 * 2 ^ estimate) = 2 * leastNormal * 2 ^ estimate by ring]
  by_cases hbelow : (numerator / denominator : ℚ) < leastNormal * 2 ^ (estimate + 1)
  · exact ⟨estimate, ⟨hlow, hbelow⟩, by rw [if_pos (hwhole.2 hbelow)]⟩
  · refine ⟨estimate + 1, ⟨not_lt.1 hbelow, ?_⟩, by rw [if_neg (hwhole.not.2 hbelow)]⟩
    rw [show estimate + 1 + 1 = estimate + 2 by ring]
    exact hhigh

/-! ## Numbers -/

def carry (significand : Nat) (exponent : Int) : Nat × Int :=
  if significand = 2 * leastNormal then (leastNormal, exponent + 1) else (significand, exponent)

theorem exists_ofQuotient (negative : Bool) (hnumerator : 0 < numerator) (hpos : 0 < denominator) :
    ∃ exponent significand, Normalizes (numerator / denominator) exponent ∧
      Nearest (numerator / denominator / 2 ^ max exponent leastExponent) significand ∧
      ofQuotient negative numerator denominator =
        if greatestExponent < (carry significand (max exponent leastExponent)).2 then
          .infinite negative
        else .finite negative (carry significand (max exponent leastExponent)).1
          (carry significand (max exponent leastExponent)).2 := by
  obtain ⟨exponent, hnormalizes, hexponent⟩ := exists_exponentFor hnumerator hpos
  obtain ⟨hscaled, hvalue⟩ := @scaleDown_eq numerator _ hpos (max exponent leastExponent)
  refine ⟨exponent, roundQuotient (scaleDown numerator denominator (max exponent leastExponent)).1
    (scaleDown numerator denominator (max exponent leastExponent)).2, hnormalizes, ?_, ?_⟩
  · rw [← hvalue]
    exact nearest_roundQuotient _ hscaled
  · unfold ofQuotient
    rw [if_neg (Nat.ne_of_gt hnumerator)]
    simp only [hexponent]
    rfl

/-- How far below a number the midpoint to its lower neighbour is, in fourths of a unit: below a power
of two the numbers are twice as dense. -/
def lowGap (significand : Nat) (exponent : Int) : ℚ :=
  if significand = leastNormal ∧ leastExponent < exponent then 1 else 2

/-- The quotient lies between the midpoints to the neighbours of the number, and on one of them only
if the significand is even. -/
structure RoundsTo (x : ℚ) (significand : Nat) (exponent : Int) : Prop where
  low : (significand - lowGap significand exponent / 4) * 2 ^ exponent ≤ x
  high : x ≤ (significand + 1 / 2) * 2 ^ exponent
  even : x = (significand - lowGap significand exponent / 4) * 2 ^ exponent ∨
    x = (significand + 1 / 2) * 2 ^ exponent → significand % 2 = 0

theorem lowGap_cases (significand : Nat) (exponent : Int) :
    lowGap significand exponent = 2 ∨
      lowGap significand exponent = 1 ∧ significand = leastNormal ∧ leastExponent < exponent := by
  unfold lowGap
  split
  · exact .inr ⟨rfl, ‹_›⟩
  · exact .inl rfl

theorem RoundsTo.pos (h : RoundsTo x significand exponent) (hsignificand : 0 < significand) :
    0 < x := by
  have hone : (1 : ℚ) ≤ significand := by exact_mod_cast hsignificand
  have hgap : lowGap significand exponent ≤ 2 := by
    rcases lowGap_cases significand exponent with hgap | ⟨hgap, -⟩ <;> rw [hgap]
    norm_num
  have hpower := two_zpow_pos exponent
  exact lt_of_lt_of_le (mul_pos (by linarith) hpower) h.low

theorem RoundsTo.nearest (h : RoundsTo x significand exponent) :
    Nearest (x / 2 ^ exponent) significand := by
  have hpower := two_zpow_pos exponent
  have hlow := h.low
  have hhigh := h.high
  have heven := h.even
  rw [← le_div_iff₀ hpower] at hlow
  rw [← div_le_iff₀ hpower] at hhigh
  rw [← div_eq_iff hpower.ne', ← div_eq_iff hpower.ne'] at heven
  rcases lowGap_cases significand exponent with hgap | ⟨hgap, -⟩
  · rw [hgap] at hlow heven
    refine ⟨by linarith, hhigh, fun htie => heven ?_⟩
    rcases htie with htie | htie
    · exact .inl (by linarith)
    · exact .inr htie
  · rw [hgap] at hlow
    refine ⟨by linarith, hhigh, fun htie => heven ?_⟩
    rcases htie with htie | htie
    · linarith
    · exact .inr htie

/-- A quotient below the numbers with this exponent rounds up to a power of two, if it does not have
the least exponent. -/
theorem RoundsTo.power_of_lt (h : RoundsTo x significand exponent)
    (hcanonical : Canonical significand exponent) (hbelow : x < leastNormal * 2 ^ exponent)
    (hleast : leastExponent < exponent) :
    significand = leastNormal ∧ Normalizes x (exponent - 1) ∧
      Nearest (x / 2 ^ (exponent - 1)) (2 * leastNormal) := by
  have hpower := two_zpow_pos exponent
  have hhalf : (2 : ℚ) ^ exponent = 2 * 2 ^ (exponent - 1) := by
    rw [← two_zpow_succ, sub_add_cancel]
  have hnormal : leastNormal ≤ significand := by
    rcases hcanonical.normal with hnormal | hexponent
    · exact hnormal
    · omega
  have hlow := h.low
  have hsame : significand = leastNormal := by
    by_contra hother
    have hmore : (leastNormal : ℚ) + 1 ≤ significand := by
      exact_mod_cast (by omega : leastNormal + 1 ≤ significand)
    have hgap : lowGap significand exponent = 2 := by
      rcases lowGap_cases significand exponent with hgap | ⟨-, hsame, -⟩
      · exact hgap
      · exact absurd hsame hother
    rw [hgap] at hlow
    have hlt := lt_of_le_of_lt hlow hbelow
    rw [mul_lt_mul_iff_left₀ hpower] at hlt
    linarith
  subst hsame
  have hgap : lowGap leastNormal exponent = 1 := if_pos ⟨rfl, hleast⟩
  rw [hgap] at hlow
  have hpower' := two_zpow_pos (exponent - 1)
  have hlow' : 2 * leastNormal - 1 / 2 ≤ x / 2 ^ (exponent - 1) := by
    rw [le_div_iff₀ hpower']
    rw [hhalf] at hlow
    linarith
  have hhigh' : x / 2 ^ (exponent - 1) < 2 * leastNormal := by
    rw [div_lt_iff₀ hpower']
    rw [hhalf] at hbelow
    linarith
  refine ⟨rfl, ⟨?_, by rwa [sub_add_cancel]⟩, ?_, ?_, ?_⟩
  · rw [← le_div_iff₀ hpower']
    have hlarge : (1 : ℚ) ≤ leastNormal := by norm_num [leastNormal]
    linarith
  · push_cast
    exact hlow'
  · push_cast
    linarith
  · exact fun _ => by omega

theorem ofQuotient_eq (negative : Bool) (hpos : 0 < denominator)
    (hcanonical : Canonical significand exponent) (hsignificand : 0 < significand)
    (h : RoundsTo (numerator / denominator) significand exponent) :
    ofQuotient negative numerator denominator = .finite negative significand exponent := by
  have hcast : (0 : ℚ) < denominator := by exact_mod_cast hpos
  have hnumerator : 0 < numerator := by
    have hx := h.pos hsignificand
    rw [div_pos_iff_of_pos_right hcast] at hx
    exact_mod_cast hx
  obtain ⟨scale, rounded, hnormalizes, hnearest, hnumber⟩ :=
    exists_ofQuotient negative hnumerator hpos
  have hpower := two_zpow_pos exponent
  suffices hcarry : carry rounded (max scale leastExponent) = (significand, exponent) by
    rw [hnumber, hcarry, if_neg (not_lt.2 hcanonical.greatest)]
  have hhigh : (numerator / denominator : ℚ) < leastNormal * 2 ^ (exponent + 1) := by
    refine lt_of_le_of_lt h.high ?_
    have hbounded : (significand : ℚ) + 1 ≤ 2 * leastNormal := by
      exact_mod_cast hcanonical.bounded
    rw [two_zpow_succ, ← mul_assoc, mul_comm (leastNormal : ℚ) 2, mul_lt_mul_iff_left₀ hpower]
    linarith
  by_cases hup : (numerator / denominator : ℚ) < leastNormal * 2 ^ exponent ∧ leastExponent < exponent
  · obtain ⟨rfl, hnormalizes', hnearest'⟩ := h.power_of_lt hcanonical hup.1 hup.2
    obtain rfl := hnormalizes.unique hnormalizes'
    have hmax : max (exponent - 1) leastExponent = exponent - 1 := max_eq_left (by omega)
    rw [hmax] at hnearest ⊢
    rw [hnearest.unique hnearest', carry, if_pos rfl, sub_add_cancel]
  · have hmax : max scale leastExponent = exponent := by
      rcases not_and_or.1 hup with habove | hleast
      · rw [hnormalizes.unique ⟨not_lt.1 habove, hhigh⟩]
        exact max_eq_left hcanonical.least
      · obtain rfl : exponent = leastExponent := le_antisymm (not_lt.1 hleast) hcanonical.least
        exact max_eq_right (hnormalizes.le_of_lt hhigh)
    rw [hmax] at hnearest ⊢
    rw [hnearest.unique h.nearest, carry, if_neg (Nat.ne_of_lt hcanonical.bounded)]

theorem canonical_carry {scale : Int} (hnormalizes : Normalizes x scale)
    (hnearest : Nearest (x / 2 ^ max scale leastExponent) rounded)
    (hgreatest : ¬ greatestExponent < (carry rounded (max scale leastExponent)).2) :
    Canonical (carry rounded (max scale leastExponent)).1
      (carry rounded (max scale leastExponent)).2 := by
  have hleast : leastExponent ≤ max scale leastExponent := le_max_right ..
  have hscale : max scale leastExponent = scale ∨ max scale leastExponent = leastExponent :=
    max_choice ..
  have hle : scale ≤ max scale leastExponent := le_max_left ..
  generalize max scale leastExponent = exponent at hnearest hgreatest hleast hscale hle ⊢
  have hpower := two_zpow_pos exponent
  have hbounded : rounded ≤ 2 * leastNormal := by
    have hmonotone : (2 : ℚ) ^ (scale + 1) ≤ 2 ^ (exponent + 1) :=
      zpow_le_zpow_right₀ (by norm_num) (by omega)
    have hnormal : (0 : ℚ) ≤ leastNormal := by positivity
    have hx := lt_of_lt_of_le hnormalizes.high (mul_le_mul_of_nonneg_left hmonotone hnormal)
    rw [two_zpow_succ, ← mul_assoc, mul_comm (leastNormal : ℚ) 2, ← div_lt_iff₀ hpower] at hx
    have hlow := hnearest.low
    have hless : (rounded : ℚ) < 2 * leastNormal + 1 := by linarith
    have hless : rounded < 2 * leastNormal + 1 := by exact_mod_cast hless
    omega
  unfold carry at hgreatest ⊢
  split
  · rename_i hcarried
    rw [if_pos hcarried] at hgreatest
    refine ⟨?_, by simp only; omega, not_lt.1 hgreatest, .inl (le_refl _)⟩
    show leastNormal < 2 * leastNormal
    decide
  · rename_i hkept
    rw [if_neg hkept] at hgreatest
    refine ⟨by simp only; omega, hleast, not_lt.1 hgreatest, ?_⟩
    rcases hscale with rfl | hexponent
    · left
      have hlow := hnormalizes.low
      rw [← le_div_iff₀ hpower] at hlow
      have hhigh := hnearest.high
      have hless : (leastNormal : ℚ) < rounded + 1 := by linarith
      have hless : leastNormal < rounded + 1 := by exact_mod_cast hless
      exact Nat.le_of_lt_succ hless
    · exact .inr hexponent

theorem ofQuotient_cases (negative : Bool) (numerator : Nat) (hpos : 0 < denominator) :
    ofQuotient negative numerator denominator = .infinite negative ∨
      ∃ significand exponent, Canonical significand exponent ∧
        ofQuotient negative numerator denominator = .finite negative significand exponent := by
  rcases Nat.eq_zero_or_pos numerator with rfl | hnumerator
  · refine .inr ⟨0, leastExponent, ⟨by decide, le_refl _, by decide, .inr rfl⟩, ?_⟩
    rw [ofQuotient, if_pos rfl]
    rfl
  · obtain ⟨scale, rounded, hnormalizes, hnearest, hnumber⟩ :=
      exists_ofQuotient negative hnumerator hpos
    rw [hnumber]
    split
    · exact .inl rfl
    · rename_i hgreatest
      exact .inr ⟨_, _, canonical_carry hnormalizes hnearest hgreatest, rfl⟩

end Offside.Number.Binary64
