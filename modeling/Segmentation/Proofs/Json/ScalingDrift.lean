import Mathlib
import Segmentation.Proofs.Binary64.Drift
import Segmentation.Proofs.Json.Scaling

/-!
# How far scaling drifts

A significand is scaled by a power of ten in at most four rounded steps: both are turned into
doubles, and the one is multiplied or divided by the other, in two steps if the power is large.
`near_of_scaled?` bounds what these steps add up to. The significand may be off by `cutFactor`
itself, for the digits that did not fit it; the result is at most seven representable numbers away
from the double nearest to the exact value.
-/

set_option autoImplicit false

namespace Segmentation.Json

open Binary64

/-- What the digits that are left over can change. -/
def cutFactor : ℚ := 1 + 1 / 10 ^ 18

theorem cutFactor_pos : 0 < cutFactor := by
  unfold cutFactor
  norm_num

/-! ### Rounded steps -/

theorem cast_unitsPerOne_pos : (0 : ℚ) < unitsPerOne := Nat.cast_pos.mpr unitsPerOne_pos

/-- A magnitude stands for a positive whole number, up to the rounding. -/
structure Stands (rank : Fin rankBound) (n : ℕ) : Prop where
  pos : 0 < n
  within : Within roundingFactor (units rank) (n * unitsPerOne)

namespace Stands

variable {rank : Fin rankBound} {n : ℕ}

theorem cast_pos (h : Stands rank n) : (0 : ℚ) < n := Nat.cast_pos.mpr h.pos

theorem units_pos (h : Stands rank n) : 0 < units rank := by
  have hvalue : (0 : ℚ) < n * unitsPerOne := mul_pos h.cast_pos cast_unitsPerOne_pos
  have hpos : (0 : ℚ) < roundingFactor * units rank := hvalue.trans_le h.within.2
  exact Nat.cast_pos.mp (pos_of_mul_pos_right hpos roundingFactor_pos.le)

theorem cast_units_pos (h : Stands rank n) : (0 : ℚ) < units rank := Nat.cast_pos.mpr h.units_pos

theorem ne_zero (h : Stands rank n) : rank.val ≠ 0 := ne_zero_of_units h.units_pos

end Stands

theorem exists_stands {n : ℕ} (hpos : 0 < n) (hfinite : IsMagnitude (ofNat n)) :
    ∃ rank : Fin rankBound, ofNat n = .finite false rank ∧ Stands rank n := by
  obtain ⟨rank, hrank, hwithin⟩ := exists_within_ofNat hpos hfinite
  exact ⟨rank, hrank, hpos, hwithin⟩

/-- A power of ten up to `1e308` stands for itself. -/
theorem exists_stands_powerOfTen {exponent : ℕ} (h : exponent ≤ 308) :
    ∃ rank : Fin rankBound, powerOfTen exponent = .finite false rank ∧
      Stands rank (10 ^ exponent) := by
  obtain ⟨rank, hrank, -⟩ := exists_powerOfTen h
  exact exists_stands (pow_pos (by decide) _) ⟨rank, hrank⟩

section Steps

variable {m n k : ℕ} {first second third : Fin rankBound} {numerator denominator : ℕ}

theorem twoSteps_le : roundingFactor * roundingFactor * cutFactor ≤ 1 + 3 / 2 ^ 53 := by
  unfold roundingFactor cutFactor
  norm_num

/-- Two rounded steps after the digits were cut. -/
theorem near_of_twoSteps {value : ℚ} {numerator' denominator' : ℕ} (hpos' : 0 < denominator')
    (hpos : 0 < denominator)
    (hsteps : Within (roundingFactor * roundingFactor) (numerator' / denominator' : ℚ)
      (value * unitsPerOne))
    (hvalue : Within cutFactor value (numerator / denominator : ℚ)) :
    |(nearestRank numerator' denominator' : ℤ) -
      nearestRank (numerator * unitsPerOne) denominator| ≤ 7 := by
  have hall := hsteps.trans (hvalue.mul_right cast_unitsPerOne_pos.le)
    (mul_pos roundingFactor_pos roundingFactor_pos).le cutFactor_pos.le
  have hquotient : (numerator / denominator * unitsPerOne : ℚ) =
      (numerator * unitsPerOne : ℕ) / denominator := by
    rw [Nat.cast_mul, mul_div_right_comm]
  rw [hquotient] at hall
  -- The number of units must not be looked into.
  generalize numerator * unitsPerOne = scaled at hall ⊢
  have hbound := hall.mono twoSteps_le (div_nonneg (Nat.cast_nonneg _) (Nat.cast_nonneg _))
    (div_nonneg (Nat.cast_nonneg _) (Nat.cast_nonneg _))
  have hnear := @nearestRank_near numerator' denominator' scaled denominator 3 0 hpos' hpos
    (by simpa using hbound.1) (by simpa using hbound.2)
  exact hnear.trans (by decide)

/-- A product of two rounded numbers. -/
theorem near_product (hfirst : Stands first m) (hsecond : Stands second n)
    (hpos : 0 < denominator)
    (hvalue : Within cutFactor (m * n) (numerator / denominator : ℚ)) :
    |(nearestRank (units first * units second) unitsPerOne : ℤ) -
      nearestRank (numerator * unitsPerOne) denominator| ≤ 7 := by
  have hproduct := hfirst.within.product hsecond.within hfirst.cast_units_pos
    hsecond.cast_units_pos hfirst.cast_pos hsecond.cast_pos cast_unitsPerOne_pos
    roundingFactor_pos.le
  exact near_of_twoSteps unitsPerOne_pos hpos (by rwa [Nat.cast_mul]) hvalue

/-- A quotient of two rounded numbers. -/
theorem near_quotient (hfirst : Stands first m) (hsecond : Stands second n)
    (hpos : 0 < denominator)
    (hvalue : Within cutFactor (m / n) (numerator / denominator : ℚ)) :
    |(nearestRank (units first * unitsPerOne) (units second) : ℤ) -
      nearestRank (numerator * unitsPerOne) denominator| ≤ 7 := by
  have hquotient := hfirst.within.quotient hsecond.within hfirst.cast_units_pos
    hsecond.cast_units_pos hfirst.cast_pos hsecond.cast_pos cast_unitsPerOne_pos
    roundingFactor_pos.le
  exact near_of_twoSteps hsecond.units_pos hpos (by rwa [Nat.cast_mul]) hvalue

/-- What four rounded steps change after the digits were cut. -/
theorem fourSteps_le : roundingFactor * (roundingFactor * roundingFactor * roundingFactor *
    cutFactor) ≤ 1 + 5 / 2 ^ 53 := by
  unfold roundingFactor cutFactor
  norm_num

/-- A rounded number that is divided by five at least, where it was rounded by a unit too. -/
theorem bounds_of_slack {rounded exact scale target : ℚ} (hrounded : rounded ≤
      roundingFactor * exact + 1) (hexact : exact ≤ roundingFactor * rounded + 1)
    (hscale : 0 ≤ scale) (hsmall : scale ≤ 1 / 5) (hpos : 0 ≤ rounded) (htarget : 0 ≤ target)
    (h : Within (roundingFactor * roundingFactor * roundingFactor * cutFactor) (exact * scale)
      target) :
    rounded * scale ≤ (1 + 5 / 2 ^ 53) * target + 1 ∧
      target ≤ (1 + 5 / 2 ^ 53) * (rounded * scale) + 1 := by
  have hfour := fourSteps_le
  have hfactor : 0 ≤ roundingFactor * roundingFactor * roundingFactor * cutFactor :=
    mul_nonneg (mul_nonneg (mul_nonneg roundingFactor_pos.le roundingFactor_pos.le)
      roundingFactor_pos.le) cutFactor_pos.le
  have hfactorSmall : roundingFactor * roundingFactor * roundingFactor * cutFactor ≤ 2 := by
    unfold roundingFactor cutFactor
    norm_num
  have hproduct : 0 ≤ rounded * scale := mul_nonneg hpos hscale
  constructor
  · calc rounded * scale ≤ (roundingFactor * exact + 1) * scale :=
          mul_le_mul_of_nonneg_right hrounded hscale
      _ = roundingFactor * (exact * scale) + scale := by ring
      _ ≤ roundingFactor * (roundingFactor * roundingFactor * roundingFactor * cutFactor * target)
          + 1 := by
          refine add_le_add (mul_le_mul_of_nonneg_left h.1 roundingFactor_pos.le) ?_
          linarith
      _ = roundingFactor * (roundingFactor * roundingFactor * roundingFactor * cutFactor) * target
          + 1 := by ring
      _ ≤ (1 + 5 / 2 ^ 53) * target + 1 := by
          have hscaled := mul_le_mul_of_nonneg_right hfour htarget
          linarith
  · have hslack : roundingFactor * roundingFactor * roundingFactor * cutFactor * scale ≤ 1 := by
      calc roundingFactor * roundingFactor * roundingFactor * cutFactor * scale
          ≤ 2 * (1 / 5) := mul_le_mul hfactorSmall hsmall hscale (by norm_num)
        _ ≤ 1 := by norm_num
    calc target
        ≤ roundingFactor * roundingFactor * roundingFactor * cutFactor * (exact * scale) := h.2
      _ ≤ roundingFactor * roundingFactor * roundingFactor * cutFactor *
          ((roundingFactor * rounded + 1) * scale) :=
          mul_le_mul_of_nonneg_left (mul_le_mul_of_nonneg_right hexact hscale) hfactor
      _ = roundingFactor * (roundingFactor * roundingFactor * roundingFactor * cutFactor) *
          (rounded * scale) +
          roundingFactor * roundingFactor * roundingFactor * cutFactor * scale := by ring
      _ ≤ (1 + 5 / 2 ^ 53) * (rounded * scale) + 1 :=
          add_le_add (mul_le_mul_of_nonneg_right hfour hproduct) hslack

/-- A quotient of a rounded quotient. The first one may be so small that it is rounded by a unit. -/
theorem near_twoQuotients (hfirst : Stands first m) (hsecond : Stands second n)
    (hthird : Stands third k) (hk : 10 ≤ k) (hpos : 0 < denominator)
    (hvalue : Within cutFactor (m / n / k) (numerator / denominator : ℚ)) :
    |(nearestRank (units (nearestRank (units first * unitsPerOne) (units second)) * unitsPerOne)
        (units third) : ℤ) - nearestRank (numerator * unitsPerOne) denominator| ≤ 7 := by
  have hunit := cast_unitsPerOne_pos
  have hrounded := @near_nearestRank (units first * unitsPerOne) (units second) hsecond.units_pos
  have hquotient := hfirst.within.quotient hsecond.within hfirst.cast_units_pos
    hsecond.cast_units_pos hfirst.cast_pos hsecond.cast_pos hunit roundingFactor_pos.le
  have hthirdPos := hthird.cast_units_pos
  have hkPos := hthird.cast_pos
  have hscale : Within roundingFactor ((unitsPerOne : ℚ) / units third) (1 / k) := by
    have hinv := (hthird.within.inv hthirdPos (mul_pos hkPos hunit)).mul_right hunit.le
    have hfirst : (units third : ℚ)⁻¹ * unitsPerOne = unitsPerOne / units third := by ring
    have hsecond : (k * unitsPerOne : ℚ)⁻¹ * unitsPerOne = 1 / k := by
      rw [mul_inv, mul_assoc, inv_mul_cancel₀ hunit.ne', mul_one, one_div]
    rwa [hfirst, hsecond] at hinv
  have hscalePos : (0 : ℚ) ≤ unitsPerOne / units third := (div_pos hunit hthirdPos).le
  have hsmall : (unitsPerOne : ℚ) / units third ≤ 1 / 5 := by
    have hten : (1 : ℚ) / k ≤ 1 / 10 := by
      have : (10 : ℚ) ≤ k := by exact_mod_cast hk
      exact one_div_le_one_div_of_le (by norm_num) this
    have hfactor : roundingFactor ≤ 2 := by
      unfold roundingFactor
      norm_num
    calc (unitsPerOne : ℚ) / units third ≤ roundingFactor * (1 / k) := hscale.1
      _ ≤ 2 * (1 / 10) := mul_le_mul hfactor hten (one_div_pos.mpr hkPos).le (by norm_num)
      _ = 1 / 5 := by norm_num
  rw [← Nat.cast_mul] at hquotient
  generalize nearestRank (units first * unitsPerOne) (units second) = rank at hrounded ⊢
  have hvalueUnits : (m / n * unitsPerOne * (1 / k) : ℚ) = m / n / k * unitsPerOne := by ring
  have hall := hquotient.mul hscale (div_nonneg (Nat.cast_nonneg _) (Nat.cast_nonneg _))
    (mul_nonneg (div_nonneg (Nat.cast_nonneg _) (Nat.cast_nonneg _)) hunit.le) hscalePos
    (one_div_pos.mpr hkPos).le (mul_pos roundingFactor_pos roundingFactor_pos).le
  rw [hvalueUnits] at hall
  have htarget := hall.trans (hvalue.mul_right hunit.le) (mul_pos (mul_pos roundingFactor_pos
    roundingFactor_pos) roundingFactor_pos).le cutFactor_pos.le
  have hbounds := bounds_of_slack hrounded.1 hrounded.2 hscalePos hsmall (Nat.cast_nonneg _)
    (mul_nonneg (div_nonneg (Nat.cast_nonneg _) (Nat.cast_nonneg _)) hunit.le) htarget
  rw [← mul_div_assoc, ← Nat.cast_mul, ← mul_div_right_comm, ← Nat.cast_mul] at hbounds
  -- The number of units must not be looked into.
  have hthirdUnits := hthird.units_pos
  clear hall hquotient hrounded htarget hvalueUnits hvalue hscale hscalePos hsmall
  generalize units rank * unitsPerOne = scaledRank at hbounds ⊢
  generalize numerator * unitsPerOne = scaled at hbounds ⊢
  have hnear := @nearestRank_near scaledRank (units third) scaled denominator 5 1 hthirdUnits hpos
    (by simpa using hbounds.1) (by simpa using hbounds.2)
  exact hnear.trans (by decide)

end Steps

/-! ### Scaled numbers -/

/-- Division by a power of ten is one rounding of a quotient. -/
theorem exists_div_powerOfTen {exponent : ℕ} {power : Fin rankBound}
    (h : powerOfTen exponent = .finite false power) (rank : Fin rankBound) :
    ∃ next : Fin rankBound, (Binary64.finite false rank).div (powerOfTen exponent) =
      .finite false next ∧ next.val = nearestRank (units rank * unitsPerOne) (units power) := by
  have hone := one_le_units_powerOfTen h
  obtain ⟨next, hnext⟩ := IsMagnitude.div ⟨rank, rfl⟩ hone
  have hrank := hnext
  rw [div_finite rank (unitsPerOne_pos.trans_le hone)] at hrank
  exact ⟨next, by rw [h, hnext], rank_eq_nearestRank hrank⟩

/-- The largest power of ten that is used has 1023 bits before the point. -/
theorem exists_largestPower : ∃ power : Fin rankBound, powerOfTen 308 = .finite false power ∧
    0 < units power ∧ 2 ^ 1023 * unitsPerOne ≤ units power := by
  obtain ⟨power, hpower, hone⟩ := exists_powerOfTen (le_refl 308)
  exact ⟨power, hpower, unitsPerOne_pos.trans_le hone,
    pow_le_units_powerOfTen hpower (by decide +kernel)⟩

/-- A magnitude loses 1023 bits. -/
theorem exists_div_of_bits {rank : Fin rankBound} {bits : ℕ}
    (h : units rank ≤ 2 ^ (bits + 1023)) : ∃ next : Fin rankBound,
      (Binary64.finite false rank).div (powerOfTen 308) = .finite false next ∧
      units next ≤ 2 ^ bits := by
  obtain ⟨power, hpower, hpos, hbits⟩ := exists_largestPower
  obtain ⟨next, hdiv, hnext⟩ := exists_div_powerOfTen hpower rank
  obtain ⟨bound, hbound⟩ := exists_units_eq (show 1 ≤ 2 ^ 53 by decide) bits
  rw [Nat.one_mul] at hbound
  refine ⟨next, hdiv, ?_⟩
  rw [← hbound]
  refine units_mono ?_
  rw [hnext, ← nearestRank_units bound, hbound]
  refine nearestRank_mono hpos Nat.one_pos ?_
  calc units rank * unitsPerOne * 1 ≤ 2 ^ (bits + 1023) * unitsPerOne := by
        rw [Nat.mul_one]
        exact Nat.mul_le_mul_right _ h
    _ = 2 ^ bits * (2 ^ 1023 * unitsPerOne) := by rw [pow_add, Nat.mul_assoc]
    _ ≤ 2 ^ bits * units power := Nat.mul_le_mul_left _ hbits

/-- A magnitude of fewer bits is divided to nothing. -/
theorem div_of_bits {rank : Fin rankBound} {bits : ℕ} (hbits : bits < 1023)
    (h : units rank ≤ 2 ^ bits) :
    (Binary64.finite false rank).div (powerOfTen 308) = zero := by
  obtain ⟨power, hpower, hpos, hlarge⟩ := exists_largestPower
  obtain ⟨next, hdiv, hnext⟩ := exists_div_powerOfTen hpower rank
  have hpow : 2 ^ (bits + 1) ≤ 2 ^ 1023 := pow_le_pow_right₀ (by decide) hbits
  have hsmall : 2 * (units rank * unitsPerOne) ≤ units power := by
    calc 2 * (units rank * unitsPerOne) ≤ 2 * (2 ^ bits * unitsPerOne) :=
          Nat.mul_le_mul_left _ (Nat.mul_le_mul_right _ h)
      _ = 2 ^ (bits + 1) * unitsPerOne := by rw [pow_succ]; ring
      _ ≤ 2 ^ 1023 * unitsPerOne := Nat.mul_le_mul_right unitsPerOne hpow
      _ ≤ units power := hlarge
  rw [nearestRank_of_small hpos hsmall] at hnext
  rw [hdiv, zero, finite.injEq]
  exact ⟨rfl, Fin.ext hnext⟩

theorem eq_zero_of_isZero {rank : Fin rankBound}
    (h : (Binary64.finite false rank).isZero = true) : Binary64.finite false rank = zero := by
  rw [zero, finite.injEq]
  exact ⟨rfl, Fin.ext (of_decide_eq_true h)⟩

/-- After two divisions by `1e308` nothing is left of a machine word. -/
theorem shrink_of_word {rank : Fin rankBound} (h : units rank ≤ 2 ^ (115 + 1023)) (steps : ℕ) :
    shrink (steps + 2) (.finite false rank) = zero := by
  obtain ⟨next, hnext, hunits⟩ := exists_div_of_bits h
  rw [shrink]
  split
  · rename_i hrank
    exact eq_zero_of_isZero hrank
  · rw [hnext, shrink]
    split
    · rename_i hrank
      exact eq_zero_of_isZero hrank
    · rw [div_of_bits (by decide) hunits, shrink_zero]

/-- A machine word has 64 bits. -/
theorem units_ofNat_le {n : ℕ} (h : n ≤ Word.unsignedMax) {rank : Fin rankBound}
    (hrank : ofNat n = .finite false rank) : units rank ≤ 2 ^ (115 + 1023) := by
  obtain ⟨bound, hbound⟩ := exists_units_pow 64
  have hword : n ≤ 2 ^ 64 := h.trans (by decide)
  have hbits : 64 + 1074 = 115 + 1023 := rfl
  rw [← hbits, ← pow_mul_unitsPerOne, ← hbound]
  refine units_mono ?_
  rw [rank_eq_nearestRank hrank, ← nearestRank_units bound, hbound]
  exact nearestRank_mono Nat.one_pos Nat.one_pos
    (Nat.mul_le_mul_right 1 (Nat.mul_le_mul_right _ hword))

/-- The smallest number is above `1e-360`. -/
theorem unitsPerOne_le : 2 ^ 66 * unitsPerOne ≤ 10 ^ 380 := by
  have hbits : 2 ^ (66 + 1074) ≤ 10 ^ 380 := by decide +kernel
  rwa [← pow_mul_unitsPerOne] at hbits

/-- A decimal number below half a unit by its power of ten. -/
theorem nearestRank_of_far {significand exponent numerator denominator : ℕ}
    (hword : significand ≤ Word.unsignedMax) (hexponent : 380 ≤ exponent)
    (hpos : 0 < denominator) (h : (numerator / denominator : ℚ) ≤
      cutFactor * (significand * (10 ^ exponent)⁻¹)) :
    nearestRank (numerator * unitsPerOne) denominator = 0 := by
  have hpower : (0 : ℚ) < 10 ^ exponent := by positivity
  have hdenominator : (0 : ℚ) < denominator := Nat.cast_pos.mpr hpos
  have hfactor : cutFactor ≤ 2 := by
    unfold cutFactor
    norm_num
  have hbound : (numerator : ℚ) * 10 ^ exponent ≤ 2 * significand * denominator := by
    rw [div_le_iff₀ hdenominator] at h
    calc (numerator : ℚ) * 10 ^ exponent
        ≤ cutFactor * (significand * (10 ^ exponent)⁻¹) * denominator * 10 ^ exponent :=
          mul_le_mul_of_nonneg_right h hpower.le
      _ = cutFactor * (significand * denominator) := by field_simp
      _ ≤ 2 * (significand * denominator) := mul_le_mul_of_nonneg_right hfactor (by positivity)
      _ = 2 * significand * denominator := by ring
  have hnatural : numerator * 10 ^ exponent ≤ 2 * significand * denominator := by
    exact_mod_cast hbound
  have hfour : 4 * 2 ^ 64 = 2 ^ 66 := by decide
  have hlarge : 4 * 2 ^ 64 * unitsPerOne ≤ 10 ^ exponent := by
    rw [hfour]
    exact unitsPerOne_le.trans (pow_le_pow_right₀ (by decide) hexponent)
  have hword : significand ≤ 2 ^ 64 := hword.trans (by decide)
  refine nearestRank_of_small hpos (Nat.le_of_mul_le_mul_right ?_ (pow_pos (show 0 < 10 by decide)
    exponent))
  calc 2 * (numerator * unitsPerOne) * 10 ^ exponent
      = 2 * (numerator * 10 ^ exponent) * unitsPerOne := by ring
    _ ≤ 2 * (2 * significand * denominator) * unitsPerOne :=
      Nat.mul_le_mul_right _ (Nat.mul_le_mul_left _ hnatural)
    _ ≤ 2 * (2 * 2 ^ 64 * denominator) * unitsPerOne :=
      Nat.mul_le_mul_right _ (Nat.mul_le_mul_left _ (Nat.mul_le_mul_right _
        (Nat.mul_le_mul_left _ hword)))
    _ = denominator * (4 * 2 ^ 64 * unitsPerOne) := by ring
    _ ≤ denominator * 10 ^ exponent := Nat.mul_le_mul_left _ hlarge

/-- A significand that is scaled up is multiplied once. -/
theorem eq_mul_of_scaled? {significand e : ℕ} {x : Binary64}
    (h : scaled? significand (.ofNat e) = some x) (hzero : (ofNat significand).isZero = false) :
    e ≤ 308 ∧ x = (ofNat significand).mul (powerOfTen e) := by
  simp only [scaled?, hzero, Bool.false_eq_true, if_false] at h
  split at h
  · exact absurd h (by simp)
  · rename_i hlarge
    refine ⟨Nat.not_lt.mp hlarge, ?_⟩
    split at h
    · exact absurd h (by simp)
    · exact (Option.some.inj h).symm

section Scaled

variable {significand exponent numerator denominator : ℕ} {first rank : Fin rankBound}

/-- A significand that is scaled up is one product. -/
theorem near_of_mul (hstands : Stands first significand) (hexponent : exponent ≤ 308)
    (h : (Binary64.finite false first).mul (powerOfTen exponent) = .finite false rank)
    (hpos : 0 < denominator)
    (hvalue : Within cutFactor (significand * (10 ^ exponent : ℕ))
      (numerator / denominator : ℚ)) :
    |(rank.val : ℤ) - nearestRank (numerator * unitsPerOne) denominator| ≤ 7 := by
  obtain ⟨power, hpower, hpowerStands⟩ := exists_stands_powerOfTen hexponent
  rw [hpower] at h
  rw [rank_eq_nearestRank h]
  exact near_product hstands hpowerStands hpos hvalue

/-- A significand that is scaled down a little is one quotient. -/
theorem near_of_div (hstands : Stands first significand) (hexponent : exponent ≤ 308)
    (h : (Binary64.finite false first).div (powerOfTen exponent) = .finite false rank)
    (hpos : 0 < denominator)
    (hvalue : Within cutFactor (significand / (10 ^ exponent : ℕ))
      (numerator / denominator : ℚ)) :
    |(rank.val : ℤ) - nearestRank (numerator * unitsPerOne) denominator| ≤ 7 := by
  obtain ⟨power, hpower, hpowerStands⟩ := exists_stands_powerOfTen hexponent
  rw [hpower, div_finite _ hpowerStands.units_pos] at h
  rw [rank_eq_nearestRank h]
  exact near_quotient hstands hpowerStands hpos hvalue

/-- A significand that is scaled down further is a quotient of a quotient. -/
theorem near_of_div_div (hstands : Stands first significand) (hlow : 1 ≤ exponent)
    (hexponent : exponent ≤ 308)
    (h : ((Binary64.finite false first).div (powerOfTen 308)).div (powerOfTen exponent) =
      .finite false rank) (hpos : 0 < denominator)
    (hvalue : Within cutFactor (significand / (10 ^ 308 : ℕ) / (10 ^ exponent : ℕ))
      (numerator / denominator : ℚ)) :
    |(rank.val : ℤ) - nearestRank (numerator * unitsPerOne) denominator| ≤ 7 := by
  obtain ⟨power, hpower, hpowerStands⟩ := exists_stands_powerOfTen hexponent
  obtain ⟨large, hlarge, hlargeStands⟩ := exists_stands_powerOfTen (le_refl 308)
  obtain ⟨next, hdiv, hnext⟩ := exists_div_powerOfTen hlarge first
  have hten : 10 ≤ 10 ^ exponent := by
    calc 10 = 10 ^ 1 := (pow_one 10).symm
      _ ≤ 10 ^ exponent := pow_le_pow_right₀ (by decide) hlow
  rw [hdiv, hpower, div_finite _ hpowerStands.units_pos] at h
  rw [rank_eq_nearestRank h, hnext]
  exact near_twoQuotients hstands hlargeStands hpowerStands hten hpos hvalue

end Scaled

/-- A scaled number is close to the double nearest to the exact value. -/
theorem near_of_scaled? {significand : ℕ} (hsignificand : 0 < significand)
    (hword : significand ≤ Word.unsignedMax) {exponent : ℤ} {x : Binary64}
    (h : scaled? significand exponent = some x) {numerator denominator : ℕ}
    (hpos : 0 < denominator)
    (hvalue : Within cutFactor (significand * 10 ^ exponent) (numerator / denominator : ℚ)) :
    ∃ rank : Fin rankBound, x = .finite false rank ∧
      |(rank.val : ℤ) - nearestRank (numerator * unitsPerOne) denominator| ≤ 7 := by
  obtain ⟨first, hfirst, hstands⟩ := exists_stands hsignificand (isMagnitude_ofNat hword)
  obtain ⟨rank, hrank⟩ := isMagnitude_of_scaled? hword h
  refine ⟨rank, hrank, ?_⟩
  have hnonzero : (Binary64.finite false first).isZero = false :=
    decide_eq_false hstands.ne_zero
  cases exponent with
  | ofNat e =>
    obtain ⟨hlarge, hproduct⟩ := eq_mul_of_scaled? h (hfirst ▸ hnonzero)
    rw [hfirst, hrank] at hproduct
    apply near_of_mul hstands hlarge hproduct.symm hpos
    rw [Nat.cast_pow, Nat.cast_ofNat]
    exact hvalue
  | negSucc e =>
    have hrest : e + 1 - 308 * (e / 308) ≤ 308 := by omega
    have hx : (shrink (e / 308) (ofNat significand)).div (powerOfTen (e + 1 - 308 * (e / 308))) =
        x := Option.some.inj h
    rw [hfirst, hrank] at hx
    rw [zpow_negSucc] at hvalue
    rcases Nat.lt_trichotomy (e / 308) 1 with hnone | hone | hmany
    · have hsteps : e / 308 = 0 := by omega
      rw [hsteps, Nat.mul_zero, Nat.sub_zero] at hx hrest
      rw [shrink] at hx
      apply near_of_div hstands hrest hx hpos
      rw [Nat.cast_pow, Nat.cast_ofNat, div_eq_mul_inv]
      exact hvalue
    · rw [hone, Nat.mul_one] at hx hrest
      rw [shrink] at hx
      simp only [hnonzero, Bool.false_eq_true, if_false, shrink] at hx
      apply near_of_div_div hstands (show 1 ≤ e + 1 - 308 by omega) hrest hx hpos
      rw [div_div, ← Nat.cast_mul, ← pow_add, show 308 + (e + 1 - 308) = e + 1 by omega,
        Nat.cast_pow, Nat.cast_ofNat, div_eq_mul_inv]
      exact hvalue
    · -- Nothing is left of the number, and the exact value is below half a unit too.
      obtain ⟨steps, hsteps⟩ : ∃ steps, e / 308 = steps + 2 := ⟨e / 308 - 2, by omega⟩
      have hgone := shrink_of_word (units_ofNat_le hword hfirst) steps
      rw [← hsteps] at hgone
      rw [hgone, zero_div_powerOfTen hrest, zero, finite.injEq] at hx
      rw [nearestRank_of_far hword (show 380 ≤ e + 1 by omega) hpos hvalue.2, ← hx.2]
      decide

end Segmentation.Json
