import Mathlib
import Segmentation.Proofs.Binary64.Nearest

/-!
# Representable numbers and exact operations

An integer of at most 53 bits times a power of two is the magnitude of some rank
(`exists_units_eq`), and a rank is finite exactly if its magnitude is below `2 ^ 1024`
(`lt_rankBound_iff`). So an operation on doubles whose exact result has a quotient form is one
rounding of that quotient: `mul_eq_ofRatio` and `div_eq_ofRatio` state it for operands that stand
for natural numbers without error. A quotient that is not above a finite magnitude rounds to a
finite one (`isMagnitude_ofUnits`).
-/

set_option autoImplicit false

namespace Segmentation.Binary64

/-! ### Signs -/

@[simp] theorem signed_false (x : Binary64) : x.signed false = x := rfl

/-- The sign of a rounded number can be set before or after rounding. -/
theorem signed_ofRank (negative : Bool) (rank : ℕ) :
    (ofRank false rank).signed negative = ofRank negative rank := by
  unfold ofRank
  cases negative <;> split <;> rfl

theorem signed_ofRatio (negative : Bool) (numerator denominator : ℕ) :
    (ofRatio false numerator denominator).signed negative =
      ofRatio negative numerator denominator :=
  signed_ofRank negative _

theorem ofRank_zero (negative : Bool) : ofRank negative 0 = zero.signed negative := by
  cases negative <;> rfl

/-- A rounded number that is finite has the rank that rounding gives. -/
theorem rank_eq_nearestRank {negative sign : Bool} {numerator denominator : ℕ}
    {rank : Fin rankBound} (h : ofUnits negative numerator denominator = .finite sign rank) :
    rank.val = nearestRank numerator denominator := by
  unfold ofUnits ofRank at h
  split at h
  · rw [finite.injEq] at h
    rw [← h.2]
  · exact absurd h (by simp)

/-- Dividing by a magnitude other than zero is one rounding. -/
theorem div_finite (rank : Fin rankBound) {divisor : Fin rankBound} (h : 0 < units divisor) :
    (Binary64.finite false rank).div (.finite false divisor) =
      ofUnits false (units rank * unitsPerOne) (units divisor) := by
  simp only [Binary64.div, Bool.xor_self, if_neg (ne_zero_of_units h)]

/-! ### Ranks of magnitudes -/

/-- One is `2 ^ 1074` units. -/
theorem pow_mul_unitsPerOne (exponent : ℕ) :
    2 ^ exponent * unitsPerOne = 2 ^ (exponent + 1074) := by
  delta unitsPerOne
  generalize 1074 = bits
  exact (pow_add 2 exponent bits).symm

theorem unitsPerOne_pos : 0 < unitsPerOne := by
  delta unitsPerOne
  generalize 1074 = bits
  exact Nat.two_pow_pos bits

/-- The first magnitude past the finite ones is `2 ^ 1024`. -/
theorem units_rankBound : units rankBound = 2 ^ 1024 * unitsPerOne := by
  have hgrid := units_grid 2046 (show binade ≤ 2 * binade by decide) (Or.inr le_rfl)
  have hrank : 2046 * binade + binade = rankBound := by decide
  have hbinade : binade = 2 ^ 52 := by decide
  rw [hrank, hbinade] at hgrid
  rw [hgrid, pow_mul_unitsPerOne]
  simp only [← pow_add]

/-- The finite ranks are those of magnitudes below `2 ^ 1024`. -/
theorem lt_rankBound_iff {rank : ℕ} : rank < rankBound ↔ units rank < 2 ^ 1024 * unitsPerOne := by
  rw [← units_rankBound]
  refine ⟨units_strictMono, fun h ↦ Nat.lt_of_not_le ?_⟩
  intro hle
  exact absurd (units_mono hle) (Nat.not_le.mpr h)

/-- An integer of at most 53 bits times a power of two is a magnitude. -/
theorem exists_units_eq {significand : ℕ} (h : significand ≤ 2 ^ 53) (exponent : ℕ) :
    ∃ rank, units rank = significand * 2 ^ exponent := by
  rcases Nat.lt_or_ge (significand * 2 ^ exponent) (2 * binade) with hsmall | hlarge
  · refine ⟨significand * 2 ^ exponent, ?_⟩
    have hgrid := units_grid 0 hsmall.le (Or.inl rfl)
    rwa [Nat.zero_mul, Nat.zero_add, pow_zero, Nat.mul_one] at hgrid
  · -- Shift the significand up to 53 bits and the exponent down by as much.
    have hbinade : 2 * binade = 2 ^ 53 := by decide
    have hne : significand ≠ 0 := by
      rintro rfl
      rw [Nat.zero_mul] at hlarge
      exact absurd hlarge (by decide)
    have hlow := Nat.log2_self_le hne
    have hhigh := Nat.lt_log2_self (n := significand)
    have hbits : significand.log2 ≤ 53 := by
      by_contra hgt
      have := (Nat.pow_le_pow_right (n := 2) (by decide) (Nat.lt_of_not_le hgt)).trans
        (hlow.trans h)
      exact absurd this (by decide)
    rcases Nat.lt_or_eq_of_le hbits with hlt | heq
    · have hshift : 52 - significand.log2 ≤ exponent := by
        by_contra hgt
        have hprod : significand * 2 ^ exponent < 2 ^ 53 := by
          calc significand * 2 ^ exponent
              < 2 ^ (significand.log2 + 1) * 2 ^ exponent :=
                Nat.mul_lt_mul_of_pos_right hhigh (Nat.two_pow_pos _)
            _ = 2 ^ (significand.log2 + 1 + exponent) := (pow_add _ _ _).symm
            _ ≤ 2 ^ 53 := pow_le_pow_right₀ (by decide) (by omega)
        omega
      refine ⟨(exponent - (52 - significand.log2)) * binade +
        significand * 2 ^ (52 - significand.log2), ?_⟩
      rw [units_grid, Nat.mul_assoc, ← pow_add, Nat.add_sub_cancel' hshift]
      · calc significand * 2 ^ (52 - significand.log2)
            ≤ 2 ^ (significand.log2 + 1) * 2 ^ (52 - significand.log2) :=
              Nat.mul_le_mul_right _ hhigh.le
          _ = 2 ^ 53 := by
            rw [← pow_add]
            congr 1
            omega
          _ = 2 * binade := hbinade.symm
      · refine Or.inr ?_
        calc binade = 2 ^ significand.log2 * 2 ^ (52 - significand.log2) := by
              rw [← pow_add, Nat.add_sub_cancel' (by omega)]
              decide
          _ ≤ significand * 2 ^ (52 - significand.log2) := Nat.mul_le_mul_right _ hlow
    · have hfull : significand = 2 * binade := by
        rw [heq] at hlow
        exact le_antisymm h hlow
      refine ⟨exponent * binade + significand, ?_⟩
      exact units_grid exponent hfull.le (Or.inr (by rw [hfull]; decide))

/-- Every power of two is a magnitude. -/
theorem exists_units_pow (exponent : ℕ) : ∃ rank, units rank = 2 ^ exponent * unitsPerOne := by
  obtain ⟨rank, hrank⟩ := exists_units_eq (Nat.one_le_two_pow (n := 53)) (exponent + 1074)
  exact ⟨rank, by rw [hrank, Nat.one_mul, pow_mul_unitsPerOne]⟩

/-! ### Finite results -/

/-- The double is a finite number without a sign. -/
def IsMagnitude (x : Binary64) : Prop := ∃ rank : Fin rankBound, x = .finite false rank

theorem IsMagnitude.signed {x : Binary64} (h : IsMagnitude x) (negative : Bool) :
    ∃ rank : Fin rankBound, x.signed negative = .finite negative rank := by
  obtain ⟨rank, rfl⟩ := h
  refine ⟨rank, ?_⟩
  cases negative <;> rfl

/-- What is not above a finite magnitude rounds to a finite magnitude. -/
theorem isMagnitude_ofUnits {numerator denominator rank : ℕ} (hpos : 0 < denominator)
    (hrank : rank < rankBound) (h : numerator ≤ units rank * denominator) :
    IsMagnitude (ofUnits false numerator denominator) := by
  have hle : nearestRank numerator denominator ≤ rank := by
    rw [← nearestRank_units rank]
    exact nearestRank_mono hpos Nat.one_pos (by rwa [Nat.mul_one])
  have hfinite := hle.trans_lt hrank
  exact ⟨⟨_, hfinite⟩, by rw [ofUnits, ofRank, dif_pos hfinite]⟩

/-- A whole number below `2 ^ 1024` by a binary digit is rounded to a magnitude. -/
theorem isMagnitude_ofRatio {n exponent : ℕ} (hexponent : exponent < 1024) (h : n ≤ 2 ^ exponent) :
    IsMagnitude (ofRatio false n 1) := by
  obtain ⟨rank, hrank⟩ := exists_units_pow exponent
  have hfinite : rank < rankBound := by
    rw [lt_rankBound_iff, hrank]
    exact Nat.mul_lt_mul_of_pos_right (pow_lt_pow_right₀ (by decide) hexponent) unitsPerOne_pos
  refine isMagnitude_ofUnits Nat.one_pos hfinite ?_
  rw [hrank, Nat.mul_one]
  exact Nat.mul_le_mul_right _ h

/-- A product of magnitudes is a magnitude, unless it is too large. -/
theorem IsMagnitude.mul {x y : Binary64} (hx : IsMagnitude x) (hy : IsMagnitude y) :
    IsMagnitude (x.mul y) ∨ x.mul y = .infinite false := by
  obtain ⟨first, rfl⟩ := hx
  obtain ⟨second, rfl⟩ := hy
  simp only [Binary64.mul, ofUnits, ofRank, Bool.xor_self]
  split
  · exact Or.inl ⟨_, rfl⟩
  · exact Or.inr rfl

/-- Dividing by a number that is not below one keeps a magnitude finite. -/
theorem IsMagnitude.div {x : Binary64} (hx : IsMagnitude x) {divisor : Fin rankBound}
    (hdivisor : unitsPerOne ≤ units divisor) : IsMagnitude (x.div (.finite false divisor)) := by
  obtain ⟨rank, rfl⟩ := hx
  have hunits : 0 < units divisor := unitsPerOne_pos.trans_le hdivisor
  rw [div_finite rank hunits]
  exact isMagnitude_ofUnits hunits rank.isLt (Nat.mul_le_mul_left _ hdivisor)

/-! ### Numbers that are held without error -/

/-- The double stands for a natural number without error. -/
def Holds (x : Binary64) (n : ℕ) : Prop :=
  ∃ rank : Fin rankBound, x = .finite false rank ∧ units rank = n * unitsPerOne

/-- A natural number that is a significand of at most 53 bits times a power of two, and not too
large, is rounded without error. -/
theorem holds_ofNat {significand exponent : ℕ} (h : significand ≤ 2 ^ 53)
    (hexponent : exponent ≤ 970) : Holds (ofNat (significand * 2 ^ exponent))
      (significand * 2 ^ exponent) := by
  obtain ⟨rank, hrank⟩ := exists_units_eq h (exponent + 1074)
  have hunits : units rank = significand * 2 ^ exponent * unitsPerOne := by
    rw [hrank, Nat.mul_assoc, pow_mul_unitsPerOne]
  have hfinite : rank < rankBound := by
    rw [lt_rankBound_iff, hunits]
    refine Nat.mul_lt_mul_of_pos_right ?_ unitsPerOne_pos
    calc significand * 2 ^ exponent ≤ 2 ^ 53 * 2 ^ exponent := Nat.mul_le_mul_right _ h
      _ = 2 ^ (53 + exponent) := (pow_add _ _ _).symm
      _ < 2 ^ 1024 := pow_lt_pow_right₀ (by decide) (by omega)
  refine ⟨⟨rank, hfinite⟩, ?_, hunits⟩
  have hnearest : nearestRank (significand * 2 ^ exponent * unitsPerOne) 1 = rank :=
    nearestRank_of_eq_units Nat.one_pos (by rw [Nat.mul_one, hunits])
  rw [ofNat, ofRatio, ofUnits, hnearest, ofRank, dif_pos hfinite]

/-- A number of at most 53 bits is held without error. -/
theorem holds_short {n : ℕ} (h : n ≤ 2 ^ 53) : Holds (ofNat n) n := by
  have hholds := holds_ofNat h (Nat.zero_le 970)
  rwa [pow_zero, Nat.mul_one] at hholds

/-- The product of two numbers held without error is their exact product, rounded once. -/
theorem mul_eq_ofRatio {x y : Binary64} {m n : ℕ} (hx : Holds x m) (hy : Holds y n) :
    x.mul y = ofRatio false (m * n) 1 := by
  obtain ⟨first, rfl, hfirst⟩ := hx
  obtain ⟨second, rfl, hsecond⟩ := hy
  simp only [mul, ofRatio, ofUnits, Bool.xor_self]
  refine congrArg _ (nearestRank_congr unitsPerOne_pos Nat.one_pos ?_)
  rw [hfirst, hsecond]
  ring

/-- The quotient of two numbers held without error is their exact quotient, rounded once. -/
theorem div_eq_ofRatio {x y : Binary64} {m n : ℕ} (hx : Holds x m) (hy : Holds y n)
    (hpos : 0 < n) : x.div y = ofRatio false m n := by
  obtain ⟨first, rfl, hfirst⟩ := hx
  obtain ⟨second, rfl, hsecond⟩ := hy
  have hunits : 0 < units second := hsecond ▸ Nat.mul_pos hpos unitsPerOne_pos
  rw [div_finite first hunits, ofRatio, ofUnits, ofUnits]
  refine congrArg _ (nearestRank_congr hunits hpos ?_)
  rw [hfirst, hsecond]
  ring

end Segmentation.Binary64
