import Mathlib
import Segmentation.Json.Scalar
import Segmentation.Proofs.Decimal.Nearest

/-!
# Scaling by powers of ten

A fractional number is read as a whole number that is multiplied or divided by a power of ten, and
both steps round. The result is finite whenever there is one (`isMagnitude_of_scaled?`), and it is
the double nearest to the exact value as long as the whole number has at most 53 bits and the power
of ten has at most 22 zeros, because then only the last step rounds (`scaled?_of_short`).
-/

set_option autoImplicit false

namespace Segmentation.Json

open Binary64

/-! ### Powers of ten -/

/-- A power of ten is not rounded below a power of two that it exceeds. -/
theorem pow_le_units_powerOfTen {exponent bits : ℕ} {rank : Fin rankBound}
    (h : powerOfTen exponent = .finite false rank) (hbits : 2 ^ bits ≤ 10 ^ exponent) :
    2 ^ bits * unitsPerOne ≤ units rank := by
  obtain ⟨bound, hbound⟩ := exists_units_pow bits
  rw [powerOfTen, Nat.pow_eq, ofRatio] at h
  rw [← hbound]
  refine units_mono ?_
  rw [rank_eq_nearestRank h, ← nearestRank_units bound, hbound]
  exact nearestRank_mono Nat.one_pos Nat.one_pos
    (Nat.mul_le_mul_right 1 (Nat.mul_le_mul_right _ hbits))

theorem one_le_units_powerOfTen {exponent : ℕ} {power : Fin rankBound}
    (h : powerOfTen exponent = .finite false power) : unitsPerOne ≤ units power := by
  have hone : 2 ^ 0 ≤ 10 ^ exponent := Nat.one_le_pow _ _ (by decide)
  calc unitsPerOne = 2 ^ 0 * unitsPerOne := by rw [pow_zero, Nat.one_mul]
    _ ≤ units power := pow_le_units_powerOfTen h hone

/-- A power of ten up to `1e308` is finite and not below one. -/
theorem exists_powerOfTen {exponent : ℕ} (h : exponent ≤ 308) :
    ∃ rank : Fin rankBound, powerOfTen exponent = .finite false rank ∧
      unitsPerOne ≤ units rank := by
  have hlargest : nearestRank (10 ^ 308 * unitsPerOne) 1 < rankBound := by decide +kernel
  have hfinite : nearestRank (10 ^ exponent * unitsPerOne) 1 < rankBound := by
    refine (nearestRank_mono Nat.one_pos Nat.one_pos ?_).trans_lt hlargest
    exact Nat.mul_le_mul_right _ (Nat.mul_le_mul_right _ (pow_le_pow_right₀ (by decide) h))
  obtain ⟨rank, hpower⟩ : ∃ rank : Fin rankBound, powerOfTen exponent = .finite false rank :=
    ⟨⟨_, hfinite⟩, by rw [powerOfTen, Nat.pow_eq, ofRatio, ofUnits, ofRank, dif_pos hfinite]⟩
  exact ⟨rank, hpower, one_le_units_powerOfTen hpower⟩

/-- A power of ten with at most 22 zeros is held without error. -/
theorem holds_powerOfTen {exponent : ℕ} (h : exponent ≤ 22) :
    Holds (powerOfTen exponent) (10 ^ exponent) := by
  have hodd : 5 ^ exponent ≤ 2 ^ 53 :=
    (pow_le_pow_right₀ (by decide) h).trans (show 5 ^ 22 ≤ 2 ^ 53 by decide)
  have hfactor : 5 ^ exponent * 2 ^ exponent = 10 ^ exponent := by
    rw [← mul_pow]
    rfl
  have hholds := holds_ofNat hodd (show exponent ≤ 970 by omega)
  rw [hfactor] at hholds
  exact hholds

/-! ### Finite results -/

/-- A machine word is turned into a finite double. -/
theorem isMagnitude_ofNat {n : ℕ} (h : n ≤ Word.unsignedMax) : IsMagnitude (.ofNat n) :=
  isMagnitude_ofRatio (show 64 < 1024 by decide) (h.trans (by decide))

theorem isMagnitude_shrink (steps : ℕ) {x : Binary64} (hx : IsMagnitude x) :
    IsMagnitude (shrink steps x) := by
  induction steps generalizing x with
  | zero => exact hx
  | succ steps ih =>
    rw [shrink]
    split
    · exact hx
    · obtain ⟨rank, hrank, hunits⟩ := exists_powerOfTen (le_refl 308)
      rw [hrank]
      exact ih (hx.div hunits)

/-- A scaled number is finite. -/
theorem isMagnitude_of_scaled? {significand : ℕ} (hword : significand ≤ Word.unsignedMax)
    {exponent : ℤ} {x : Binary64} (h : scaled? significand exponent = some x) :
    IsMagnitude x := by
  have hword := isMagnitude_ofNat hword
  cases exponent with
  | ofNat e =>
    simp only [scaled?] at h
    split at h
    · rw [← Option.some.inj h]
      exact hword
    · split at h
      · exact absurd h (by simp)
      · rename_i hlarge
        obtain ⟨rank, hpower, -⟩ := exists_powerOfTen (Nat.not_lt.mp hlarge)
        rcases hword.mul ⟨rank, hpower⟩ with hfinite | hinfinite
        · split at h
          · exact absurd h (by simp)
          · rw [← Option.some.inj h]
            exact hfinite
        · rw [hinfinite] at h
          exact absurd h (by simp)
  | negSucc e =>
    simp only [scaled?, Option.some.injEq] at h
    obtain ⟨rank, hpower, hunits⟩ :=
      exists_powerOfTen (show e + 1 - 308 * (e / 308) ≤ 308 by omega)
    rw [← h, hpower]
    exact (isMagnitude_shrink _ hword).div hunits

/-! ### Results without error -/

theorem ofNat_zero : Binary64.ofNat 0 = zero := by
  have hzero := Decimal.ofRatio_of_small false Nat.one_pos (show 2 * (0 * unitsPerOne) ≤ 1 by simp)
  rw [Binary64.ofNat, hzero, signed_false]

/-- Nothing is left of zero. -/
theorem shrink_zero (steps : ℕ) : shrink steps zero = zero := by
  cases steps <;> rfl

theorem zero_div_powerOfTen {exponent : ℕ} (h : exponent ≤ 308) :
    zero.div (powerOfTen exponent) = zero := by
  obtain ⟨rank, hpower, hunits⟩ := exists_powerOfTen h
  have hpos : 0 < units rank := unitsPerOne_pos.trans_le hunits
  have hnearest : nearestRank (units 0 * unitsPerOne) (units rank) = 0 :=
    nearestRank_of_eq_units hpos (by rw [units_zero, Nat.zero_mul, Nat.zero_mul])
  rw [hpower, zero, div_finite _ hpos, ofUnits, hnearest]
  exact ofRank_zero false

/-- Zero stays zero. -/
theorem scaled?_zero (exponent : ℤ) : scaled? 0 exponent = some zero := by
  cases exponent with
  | ofNat e =>
    rw [scaled?, ofNat_zero]
    rfl
  | negSucc e =>
    simp only [scaled?, ofNat_zero, shrink_zero]
    rw [zero_div_powerOfTen (show e + 1 - 308 * (e / 308) ≤ 308 by omega)]

/-- A short significand and a short power of ten are rounded only once. -/
theorem scaled?_of_short {significand : ℕ} (hsignificand : significand ≤ 2 ^ 53) {exponent : ℤ}
    (hlow : -22 ≤ exponent) (hhigh : exponent ≤ 22) :
    scaled? significand exponent = some (⟨false, significand, exponent⟩ : Decimal).toBinary64 := by
  have hholds := holds_short hsignificand
  cases exponent with
  | ofNat e =>
    have hexponent : e ≤ 22 := by
      have : (Int.ofNat e : ℤ) = e := rfl
      omega
    rcases Nat.eq_zero_or_pos significand with hzero | hpos
    · rw [hzero, scaled?_zero]
      rfl
    · have hproduct := mul_eq_ofRatio hholds (holds_powerOfTen hexponent)
      have hvalue : (⟨false, significand, Int.ofNat e⟩ : Decimal).toBinary64 =
          ofRatio false (significand * 10 ^ e) 1 := by
        rw [Decimal.toBinary64_eq_ofRatio]
        simp [Decimal.numerator, Decimal.denominator]
      have hnonzero : (Binary64.ofNat significand).isZero = false := by
        obtain ⟨rank, hrank, hunits⟩ := hholds
        rw [hrank]
        exact decide_eq_false
          (ne_zero_of_units (hunits ▸ Nat.mul_pos hpos unitsPerOne_pos))
      have hbound : significand * 10 ^ e ≤ 2 ^ 127 := by
        calc significand * 10 ^ e ≤ 2 ^ 53 * 10 ^ 22 :=
              Nat.mul_le_mul hsignificand (pow_le_pow_right₀ (by decide) hexponent)
          _ ≤ 2 ^ 127 := by decide
      obtain ⟨rank, hfinite⟩ := isMagnitude_ofRatio (show 127 < 1024 by decide) hbound
      rw [hvalue]
      simp only [scaled?, hnonzero, Bool.false_eq_true, if_false,
        if_neg (show ¬308 < e by omega), hproduct, hfinite]
  | negSucc e =>
    have hexponent : e + 1 ≤ 22 := by omega
    have hsteps : e / 308 = 0 := by omega
    have hquotient := div_eq_ofRatio hholds (holds_powerOfTen hexponent) (pow_pos (by decide) _)
    have hvalue : (⟨false, significand, Int.negSucc e⟩ : Decimal).toBinary64 =
        ofRatio false significand (10 ^ (e + 1)) := by
      rw [Decimal.toBinary64_eq_ofRatio]
      simp [Decimal.numerator, Decimal.denominator]
    rw [hvalue]
    simp only [scaled?, hsteps, shrink, Nat.mul_zero, Nat.sub_zero, hquotient]

end Segmentation.Json
