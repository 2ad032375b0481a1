import Segmentation.Binary64.Basic

/-!
Rounding to the nearest double. A quotient of natural numbers is first cut to a multiple of the
spacing that holds where it lies, with ties going to the even multiple; the rank of the result is
then a sum, because ranks count multiples of the spacing from one power of two to the next.
-/

set_option autoImplicit false

namespace Segmentation

/-- The integer nearest to `numerator / denominator`; of two equally near, the even one. -/
def roundHalfEven (numerator denominator : Nat) : Nat :=
  let quotient := numerator / denominator
  let twice := 2 * (numerator % denominator)
  if twice < denominator ∨ (twice = denominator ∧ quotient % 2 = 0) then quotient
  else quotient + 1

/-- A whole quotient is not changed. -/
theorem roundHalfEven_mul (n : Nat) {denominator : Nat} (h : 0 < denominator) :
    roundHalfEven (n * denominator) denominator = n := by
  simp [roundHalfEven, Nat.mul_div_cancel _ h, h]

/-- The result is at most half a unit away. -/
theorem roundHalfEven_near (numerator : Nat) {denominator : Nat} (h : 0 < denominator) :
    2 * numerator ≤ (2 * roundHalfEven numerator denominator + 1) * denominator ∧
      2 * roundHalfEven numerator denominator * denominator ≤ 2 * numerator + denominator := by
  have hdiv := Nat.div_add_mod numerator denominator
  have hmod := Nat.mod_lt numerator h
  simp only [roundHalfEven]
  generalize numerator / denominator = quotient at hdiv ⊢
  generalize numerator % denominator = rest at hdiv hmod ⊢
  have hcomm : denominator * quotient = quotient * denominator := Nat.mul_comm _ _
  split
  · rename_i hlow
    have hhalf : 2 * rest ≤ denominator := by omega
    constructor
    · rw [Nat.add_mul, Nat.mul_assoc]
      omega
    · rw [Nat.mul_assoc]
      omega
  · rename_i hhigh
    have hhalf : denominator ≤ 2 * rest := by omega
    constructor
    · rw [Nat.add_mul, Nat.mul_assoc, Nat.add_mul]
      omega
    · rw [Nat.mul_assoc, Nat.add_mul]
      omega

namespace Binary64

/-- The rank nearest to a quotient given in units of the smallest positive number. Below `2 ^ 53`
units the spacing is one; above, it is the power of two that leaves 53 significant bits. -/
def nearestRank (numerator denominator : Nat) : Nat :=
  let spacing := (numerator / denominator).log2 - 52
  spacing * binade + roundHalfEven numerator (denominator * Nat.pow 2 spacing)

/-- A representable magnitude is not changed by rounding. -/
theorem nearestRank_units (rank : Nat) : nearestRank (units rank) 1 = rank := by
  by_cases hlow : rank < binade
  · have hlog : rank.log2 - 52 = 0 := by
      by_cases hzero : rank = 0
      · subst hzero
        decide
      · have := (Nat.log2_lt (k := 52) hzero).mpr hlow
        omega
    have hround := roundHalfEven_mul rank Nat.one_pos
    rw [Nat.mul_one] at hround
    simp only [nearestRank, units_of_lt hlow, Nat.div_one, hlog, Nat.pow_eq, Nat.pow_zero,
      Nat.mul_one, Nat.zero_mul, Nat.zero_add]
    exact hround
  · have hunits := units_of_le (Nat.not_lt.mp hlow)
    have hmod : rank % binade < binade := Nat.mod_lt rank (by decide)
    have hspacing : 0 < Nat.pow 2 (rank / binade - 1) := Nat.two_pow_pos _
    have hlog : (units rank).log2 - 52 = rank / binade - 1 := by
      have heq : (units rank).log2 = 52 + (rank / binade - 1) := by
        rw [hunits]
        refine (Nat.log2_eq_iff ?_).mpr ⟨?_, ?_⟩
        · have hpos : 0 < binade + rank % binade := Nat.add_pos_left (by decide) _
          exact Nat.ne_of_gt (Nat.mul_pos hpos hspacing)
        · rw [Nat.pow_add]
          exact Nat.mul_le_mul_right _ (Nat.le_add_right _ _)
        · rw [Nat.add_right_comm, Nat.pow_add]
          exact Nat.mul_lt_mul_of_pos_right (Nat.add_lt_add_left hmod binade) hspacing
      omega
    simp only [nearestRank, Nat.div_one, Nat.one_mul, hlog]
    rw [hunits, roundHalfEven_mul _ hspacing]
    simp only [binade] at hlow ⊢
    omega

/-- A rank with a sign; past the last finite rank lies infinity. -/
def ofRank (negative : Bool) (rank : Nat) : Binary64 :=
  if h : rank < rankBound then .finite negative ⟨rank, h⟩ else .infinite negative

/-- The number nearest to a quotient counted in units of the smallest positive number. -/
def ofUnits (negative : Bool) (numerator denominator : Nat) : Binary64 :=
  ofRank negative (nearestRank numerator denominator)

/-- The number nearest to `numerator / denominator`. -/
def ofRatio (negative : Bool) (numerator denominator : Nat) : Binary64 :=
  ofUnits negative (numerator * unitsPerOne) denominator

/-- The number nearest to an integer. -/
def ofInt (n : Int) : Binary64 :=
  ofRatio (decide (n < 0)) n.natAbs 1

def ofNat (n : Nat) : Binary64 :=
  ofRatio false n 1

end Binary64

end Segmentation
