import Mathlib
import Segmentation.Decimal.Layout
import Segmentation.Proofs.Binary64.Exact

/-!
# The double nearest to a decimal number

A decimal number is a quotient of `numerator` and `denominator`. `toBinary64_eq_ofRatio` shows that
reading it is one rounding of that quotient: the two shortcuts for very large and very small numbers
give what rounding gives. Hence the double depends on the sign and the value only
(`toBinary64_congr`).

`toBinary64_shortest` is the round trip of the shortest form: whichever grid the search stops at,
the decimal number that it finds rounds to the double that it was made from.
-/

set_option autoImplicit false

namespace Segmentation.Decimal

open Binary64

/-! ### Decimal numbers as quotients -/

/-- The numerator of a decimal number. -/
def numerator (d : Decimal) : ℕ := d.coefficient * 10 ^ d.exponent.toNat

/-- The denominator of a decimal number, which is a power of ten. -/
def denominator (d : Decimal) : ℕ := 10 ^ (-d.exponent).toNat

theorem denominator_pos (d : Decimal) : 0 < d.denominator := pow_pos (by decide) _

/-- The two decimal numbers have one sign and one magnitude. -/
def SameValue (first second : Decimal) : Prop :=
  first.negative = second.negative ∧
    first.numerator * second.denominator = second.numerator * first.denominator

theorem SameValue.refl (d : Decimal) : SameValue d d := ⟨rfl, rfl⟩

/-- A number of more than 310 digits is past all finite doubles. -/
theorem ofRatio_of_large (negative : Bool) {magnitude : ℕ} (h : 10 ^ 310 ≤ magnitude) :
    ofRatio negative magnitude 1 = .infinite negative := by
  have hbits : 2 ^ 1024 ≤ magnitude := by
    calc 2 ^ 1024 ≤ 10 ^ 310 := by decide +kernel
      _ ≤ magnitude := h
  have hbound : units rankBound ≤ magnitude * unitsPerOne := by
    rw [units_rankBound]
    exact Nat.mul_le_mul_right _ hbits
  have hrank : rankBound ≤ nearestRank (magnitude * unitsPerOne) 1 := by
    rw [← nearestRank_units rankBound]
    exact nearestRank_mono Nat.one_pos Nat.one_pos (Nat.mul_le_mul_right 1 hbound)
  rw [ofRatio, ofUnits, ofRank, dif_neg (Nat.not_lt.mpr hrank)]

/-- A quotient of at most half a unit is rounded to zero. -/
theorem ofRatio_of_small (negative : Bool) {numerator denominator : ℕ} (hpos : 0 < denominator)
    (h : 2 * (numerator * unitsPerOne) ≤ denominator) :
    ofRatio negative numerator denominator = zero.signed negative := by
  have hone : units (0 + 1) = 1 := rfl
  have hnear : IsNearest 0 (numerator * unitsPerOne) denominator := by
    refine ⟨?_, ?_, fun _ ↦ rfl, fun _ ↦ rfl⟩
    · rw [units_zero]
      simp
    · rw [units_zero, hone, Nat.zero_add, Nat.one_mul]
      exact h
  rw [ofRatio, ofUnits, (nearestRank_eq_iff hpos).mpr hnear, ofRank_zero]

/-- The double of a decimal number is its exact value, rounded once. -/
theorem toBinary64_eq_ofRatio (d : Decimal) :
    d.toBinary64 = ofRatio d.negative d.numerator d.denominator := by
  obtain ⟨negative, coefficient, exponent⟩ := d
  simp only [toBinary64, numerator, denominator]
  by_cases hzero : coefficient = 0
  · rw [if_pos hzero, hzero, Nat.zero_mul]
    exact (ofRatio_of_small negative (pow_pos (by decide) _) (by simp)).symm
  · rw [if_neg hzero]
    have hpos : 0 < coefficient := Nat.pos_of_ne_zero hzero
    cases exponent with
    | ofNat e =>
      have hparts : (Int.ofNat e).toNat = e ∧ (-Int.ofNat e).toNat = 0 := by
        constructor <;> simp
      rw [hparts.1, hparts.2, pow_zero]
      simp only [Nat.pow_eq]
      split
      · rename_i hlarge
        refine (ofRatio_of_large negative ?_).symm
        calc 10 ^ 310 ≤ 10 ^ e := pow_le_pow_right₀ (by decide) hlarge
          _ ≤ coefficient * 10 ^ e := Nat.le_mul_of_pos_left _ hpos
      · rfl
    | negSucc e =>
      have hparts : (Int.negSucc e).toNat = 0 ∧ (-Int.negSucc e).toNat = e + 1 := by
        constructor <;> simp
      rw [hparts.1, hparts.2, pow_zero, Nat.mul_one]
      simp only [Nat.pow_eq]
      split
      · rename_i hsmall
        refine (ofRatio_of_small negative (pow_pos (by decide) _) ?_).symm
        have hbits := Nat.lt_log2_self (n := coefficient)
        calc 2 * (coefficient * unitsPerOne)
            ≤ 2 * (2 ^ (coefficient.log2 + 1) * unitsPerOne) :=
              Nat.mul_le_mul_left _ (Nat.mul_le_mul_right _ hbits.le)
          _ = 2 ^ (coefficient.log2 + 1 + 1074 + 1) := by
              rw [pow_mul_unitsPerOne, pow_succ 2 (coefficient.log2 + 1 + 1074), Nat.mul_comm]
          _ ≤ 2 ^ (3 * (e + 1)) := pow_le_pow_right₀ (by decide) (by omega)
          _ = 8 ^ (e + 1) := by
              rw [pow_mul]
              rfl
          _ ≤ 10 ^ (e + 1) := Nat.pow_le_pow_left (by decide) _
      · rfl

/-- The double of a decimal number depends on its sign and its value only. -/
theorem toBinary64_congr {first second : Decimal} (h : SameValue first second) :
    first.toBinary64 = second.toBinary64 := by
  rw [toBinary64_eq_ofRatio, toBinary64_eq_ofRatio, h.1, ofRatio, ofRatio, ofUnits, ofUnits]
  refine congrArg _ (nearestRank_congr first.denominator_pos second.denominator_pos ?_)
  rw [Nat.mul_right_comm, h.2, Nat.mul_right_comm]

/-- No number is read as a NaN. -/
theorem toBinary64_ne_nan (d : Decimal) : d.toBinary64 ≠ .nan := by
  rw [toBinary64_eq_ofRatio, ofRatio, ofUnits, ofRank]
  split <;> simp

/-! ### The interval of a rank, on the scale of the grids -/

/-- The scale of the grids counts `10 ^ 1074` to half a unit. -/
theorem pow_mul_resolution (exponent : ℕ) :
    10 ^ exponent * resolution = 10 ^ (exponent + 1074) := by
  delta resolution
  generalize 1074 = places
  exact (pow_add 10 exponent places).symm

theorem resolution_eq : resolution = 10 ^ 1074 := by
  delta resolution
  generalize 1074 = places
  rfl

theorem resolution_pos : 0 < resolution := by
  delta resolution
  generalize 1074 = places
  exact Nat.pow_pos (by decide)

theorem gridStep_eq (level : ℕ) : gridStep level = 10 ^ level * (2 * unitsPerOne) := rfl

theorem gridStep_pos (level : ℕ) : 0 < gridStep level := by
  rw [gridStep_eq]
  exact Nat.mul_pos (pow_pos (by decide) _) (Nat.mul_pos (by decide) unitsPerOne_pos)

/-- What `roundsTo` accepts lies in the interval of the rank. -/
theorem isNearest_of_roundsTo {rank magnitude : ℕ} (h : roundsTo rank magnitude = true) :
    IsNearest rank magnitude (2 * resolution) := by
  have hlower : (units (rank - 1) + units rank) * (2 * resolution) = 2 * lowerEnd rank := by
    rw [lowerEnd]
    ring
  have hupper : (units rank + units (rank + 1)) * (2 * resolution) = 2 * upperEnd rank := by
    rw [upperEnd]
    ring
  unfold roundsTo at h
  split at h
  · rename_i heven
    simp only [Bool.and_eq_true, decide_eq_true_eq] at h
    refine ⟨?_, ?_, fun _ ↦ heven, fun _ ↦ heven⟩
    · rw [hlower]
      exact Nat.mul_le_mul_left 2 h.1
    · rw [hupper]
      exact Nat.mul_le_mul_left 2 h.2
  · simp only [Bool.and_eq_true, decide_eq_true_eq] at h
    refine ⟨?_, ?_, ?_, ?_⟩
    · rw [hlower]
      exact Nat.mul_le_mul_left 2 h.1.le
    · rw [hupper]
      exact Nat.mul_le_mul_left 2 h.2.le
    · intro htie
      rw [hlower] at htie
      omega
    · intro htie
      rw [hupper] at htie
      omega

/-- The middle of an interval belongs to it. -/
theorem roundsTo_middle (rank : ℕ) : roundsTo rank (middle rank) = true := by
  have hdouble : middle rank = (units rank + units rank) * resolution := by
    rw [middle]
    ring
  have hbelow : units (rank - 1) ≤ units rank := units_mono (Nat.sub_le _ _)
  have habove : units rank < units (rank + 1) := units_lt_succ rank
  have hlower : lowerEnd rank ≤ middle rank := by
    rw [hdouble, lowerEnd]
    exact Nat.mul_le_mul_right _ (Nat.add_le_add_right hbelow _)
  have hupper : middle rank < upperEnd rank := by
    rw [hdouble, upperEnd]
    exact Nat.mul_lt_mul_of_pos_right (Nat.add_lt_add_left habove _) resolution_pos
  unfold roundsTo
  split
  · simp only [Bool.and_eq_true, decide_eq_true_eq]
    exact ⟨hlower, hupper.le⟩
  · rename_i hodd
    have hstrict : units (rank - 1) < units rank := units_strictMono (by omega)
    simp only [Bool.and_eq_true, decide_eq_true_eq]
    refine ⟨?_, hupper⟩
    rw [hdouble, lowerEnd]
    exact Nat.mul_lt_mul_of_pos_right (Nat.add_lt_add_right hstrict _) resolution_pos

/-! ### The shortest form -/

/-- A grid point found for a rank lies in its interval. -/
theorem roundsTo_of_gridPoint? {tie : Tie} {rank level point : ℕ}
    (h : gridPoint? tie rank level = some point) :
    roundsTo rank (point * gridStep level) = true := by
  unfold gridPoint? at h
  simp only at h
  split at h
  · rename_i hboth
    rw [Bool.and_eq_true] at hboth
    rw [Option.some.injEq] at h
    rw [← h]
    split
    · exact hboth.1
    · exact hboth.2
  · split at h
    · rename_i hlower
      rw [Option.some.injEq] at h
      rw [← h]
      exact hlower
    · split at h
      · rename_i hupper
        rw [Option.some.injEq] at h
        rw [← h]
        exact hupper
      · exact absurd h (by simp)

/-- The finest grid contains every double. -/
theorem middle_eq_mul_gridStep (rank : ℕ) : middle rank = units rank * 5 ^ 1074 * gridStep 0 := by
  rw [gridStep_eq, middle]
  delta resolution unitsPerOne
  generalize 1074 = places
  have hten : Nat.pow 10 places = 5 ^ places * 2 ^ places := by
    rw [← mul_pow]
    rfl
  have htwo : Nat.pow 2 places = 2 ^ places := rfl
  rw [hten, htwo]
  ring

/-- Wherever the search ends, it has found a point in the interval. -/
theorem roundsTo_shortestFrom (tie : Tie) (rank level : ℕ) :
    roundsTo rank ((shortestFrom tie rank level).1 *
      gridStep (shortestFrom tie rank level).2) = true := by
  induction level with
  | zero =>
    have hexact : middle rank / gridStep 0 * gridStep 0 = middle rank := by
      rw [middle_eq_mul_gridStep, Nat.mul_div_cancel _ (gridStep_pos 0)]
    rw [shortestFrom, hexact]
    exact roundsTo_middle rank
  | succ level ih =>
    rw [shortestFrom]
    split
    · rename_i point hpoint
      exact roundsTo_of_gridPoint? hpoint
    · exact ih

/-- A point of a grid is the decimal number that it stands for. -/
theorem nearestRank_of_roundsTo {rank point level : ℕ} (negative : Bool)
    (h : roundsTo rank (point * gridStep level) = true) :
    nearestRank ((⟨negative, point, (level : ℤ) - 1074⟩ : Decimal).numerator * unitsPerOne)
      (⟨negative, point, (level : ℤ) - 1074⟩ : Decimal).denominator = rank := by
  have hscale : 0 < 2 * resolution := Nat.mul_pos (by decide) resolution_pos
  rw [← (nearestRank_eq_iff hscale).mpr (isNearest_of_roundsTo h)]
  refine nearestRank_congr (denominator_pos _) hscale ?_
  have hexponent : ((level : ℤ) - 1074).toNat + 1074 = level + (-((level : ℤ) - 1074)).toNat := by
    omega
  simp only [numerator, denominator, gridStep_eq]
  calc point * 10 ^ ((level : ℤ) - 1074).toNat * unitsPerOne * (2 * resolution)
      = point * (2 * unitsPerOne) * (10 ^ ((level : ℤ) - 1074).toNat * resolution) := by ring
    _ = point * (2 * unitsPerOne) * 10 ^ (level + (-((level : ℤ) - 1074)).toNat) := by
      rw [pow_mul_resolution, hexponent]
    _ = point * (10 ^ level * (2 * unitsPerOne)) * 10 ^ (-((level : ℤ) - 1074)).toNat := by
      rw [pow_add]
      ring

/-- The shortest form of a rank is some point of a grid in the interval of the rank. -/
theorem shortest_induction {P : Decimal → Prop} (tie : Tie) (negative : Bool) (rank : ℕ)
    (h : ∀ point level, roundsTo rank (point * gridStep level) = true →
      P ⟨negative, point, (level : ℤ) - 1074⟩) :
    P (shortest tie negative rank) := by
  have hparts : shortest tie negative rank =
      ⟨negative, (shortestFrom tie rank (startLevel rank)).1,
        ((shortestFrom tie rank (startLevel rank)).2 : ℤ) - 1074⟩ := rfl
  rw [hparts]
  exact h _ _ (roundsTo_shortestFrom tie rank (startLevel rank))

/-- The shortest form of a double rounds to the double. -/
theorem toBinary64_shortest (tie : Tie) (negative : Bool) (rank : Fin rankBound) :
    (shortest tie negative rank).toBinary64 = .finite negative rank := by
  refine shortest_induction (P := fun d ↦ d.toBinary64 = .finite negative rank)
    tie negative rank ?_
  intro point level hfound
  rw [toBinary64_eq_ofRatio, ofRatio, ofUnits, nearestRank_of_roundsTo negative hfound, ofRank,
    dif_pos rank.isLt]

end Segmentation.Decimal
