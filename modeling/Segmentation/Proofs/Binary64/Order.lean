import Mathlib
import Segmentation.Proofs.Binary64.Exact

/-!
# Comparing doubles

Two doubles with a place on the number line are equal or one lies below the other
(`compare_trichotomy`), and a NaN is neither equal to anything nor below it. `Unordered` covers both
ways in which two doubles can fail to be ordered: equality and a NaN. `AtMost` is the order with
equality, along which strict comparisons can be carried over (`less_of_atMost_left`,
`less_of_atMost_right`). `equals_ofInt_ofRatio` compares an integer with its magnitude and its sign,
which know two zeros where the integers know one.
-/

set_option autoImplicit false

namespace Segmentation.Binary64

variable {x y z : Binary64}

theorem exists_place (h : x ≠ .nan) : ∃ place, x.place? = some place := by
  cases hplace : x.place? with
  | none => exact absurd (place?_eq_none_iff.mp hplace) h
  | some place => exact ⟨place, rfl⟩

/-- Of two numbers either one is the smaller, or they are equal. -/
theorem compare_trichotomy (hx : x ≠ .nan) (hy : y ≠ .nan) :
    (x.equals y).toNat + (y.less x).toNat + (x.less y).toNat = 1 := by
  obtain ⟨a, ha⟩ := exists_place hx
  obtain ⟨b, hb⟩ := exists_place hy
  unfold equals less
  rw [ha, hb]
  rcases lt_trichotomy a b with hlt | heq | hgt
  · simp [hlt, hlt.ne, hlt.le]
  · simp [heq]
  · have hne : (a == b) = false := beq_eq_false_iff_ne.mpr hgt.ne'
    simp [hne, hgt, hgt.le]

theorem equals_self_of_ne_nan (h : x ≠ .nan) : x.equals x = true := by
  rw [equals_self]
  cases x with
  | nan => exact absurd rfl h
  | infinite negative => rfl
  | finite negative rank => rfl

theorem equals_iff : x.equals y = true ↔
    ∃ place, x.place? = some place ∧ y.place? = some place := by
  unfold equals
  cases x.place? with
  | none => simp
  | some first =>
    cases y.place? with
    | none => simp
    | some second => simp [eq_comm (a := second)]

theorem less_iff : x.less y = true ↔
    ∃ first second, x.place? = some first ∧ y.place? = some second ∧ first < second := by
  unfold less
  cases x.place? <;> cases y.place? <;> simp

/-! ### Neither below the other -/

/-- Neither number lies below the other: they are equal, or one of them is a NaN. -/
def Unordered (x y : Binary64) : Prop := x.less y = false ∧ y.less x = false

theorem Unordered.symm (h : Unordered x y) : Unordered y x := ⟨h.2, h.1⟩

theorem unordered_self (x : Binary64) : Unordered x x := ⟨less_irrefl x, less_irrefl x⟩

theorem unordered_of_equals (h : x.equals y = true) : Unordered x y :=
  ⟨less_eq_false_of_equals h, less_eq_false_of_equals ((equals_comm y x).trans h)⟩

theorem unordered_nan (x : Binary64) : Unordered x .nan := by
  cases x <;> exact ⟨rfl, rfl⟩

/-! ### The order with equality -/

/-- The first number lies below the second or equals it; neither is a NaN. -/
def AtMost (x y : Binary64) : Prop := x.less y = true ∨ x.equals y = true

theorem atMost_iff : AtMost x y ↔
    ∃ first second, x.place? = some first ∧ y.place? = some second ∧ first ≤ second := by
  constructor
  · rintro (hless | hequals)
    · obtain ⟨first, second, hx, hy, hlt⟩ := less_iff.mp hless
      exact ⟨first, second, hx, hy, hlt.le⟩
    · obtain ⟨place, hx, hy⟩ := equals_iff.mp hequals
      exact ⟨place, place, hx, hy, le_rfl⟩
  · rintro ⟨first, second, hx, hy, hle⟩
    rcases hle.lt_or_eq with hlt | rfl
    · exact Or.inl (less_iff.mpr ⟨first, second, hx, hy, hlt⟩)
    · exact Or.inr (equals_iff.mpr ⟨first, hx, hy⟩)

/-- What is above a number is above every smaller one. -/
theorem less_of_atMost_left (hxy : AtMost x y) (hyz : y.less z = true) : x.less z = true := by
  obtain ⟨a, b, hx, hy, hab⟩ := atMost_iff.mp hxy
  obtain ⟨b', c, hy', hz, hbc⟩ := less_iff.mp hyz
  obtain rfl : b = b' := Option.some.inj (hy.symm.trans hy')
  exact less_iff.mpr ⟨a, c, hx, hz, hab.trans_lt hbc⟩

/-- What is below a number is below every larger one. -/
theorem less_of_atMost_right (hxy : x.less y = true) (hyz : AtMost y z) : x.less z = true := by
  obtain ⟨a, b, hx, hy, hab⟩ := less_iff.mp hxy
  obtain ⟨b', c, hy', hz, hbc⟩ := atMost_iff.mp hyz
  obtain rfl : b = b' := Option.some.inj (hy.symm.trans hy')
  exact less_iff.mpr ⟨a, c, hx, hz, hab.trans_le hbc⟩

/-! ### Integers -/

theorem ofRatio_ne_nan (negative : Bool) (numerator denominator : ℕ) :
    ofRatio negative numerator denominator ≠ .nan := by
  rw [ofRatio, ofUnits, ofRank]
  split <;> simp

theorem ofInt_ne_nan (n : ℤ) : ofInt n ≠ .nan := ofRatio_ne_nan _ _ _

theorem ofRatio_zero (negative : Bool) : ofRatio negative 0 1 = zero.signed negative := by
  have hnearest : nearestRank 0 1 = 0 :=
    nearestRank_of_eq_units Nat.one_pos (by rw [units_zero, Nat.zero_mul])
  rw [ofRatio, ofUnits, Nat.zero_mul, hnearest, ofRank_zero]

/-- A magnitude with a sign is the double of the integer, except that it can be a negative zero. -/
theorem equals_ofInt_ofRatio (negative : Bool) (n : ℕ) :
    (ofInt (if negative then -(n : ℤ) else n)).equals (ofRatio negative n 1) = true := by
  have hself : ofInt (if negative then -(n : ℤ) else n) = ofRatio negative n 1 →
      (ofInt (if negative then -(n : ℤ) else n)).equals (ofRatio negative n 1) = true :=
    fun heq ↦ heq ▸ equals_self_of_ne_nan (ofInt_ne_nan _)
  cases negative with
  | false =>
    have hsign : decide ((n : ℤ) < 0) = false := decide_eq_false (Int.not_lt.mpr (by simp))
    exact hself (by simp only [Bool.false_eq_true, if_false, ofInt, hsign, Int.natAbs_natCast])
  | true =>
    rcases Nat.eq_zero_or_pos n with rfl | hpos
    · have hzero : ofInt 0 = zero := ofRatio_zero false
      simp only [if_true, Nat.cast_zero, neg_zero, hzero, ofRatio_zero]
      decide
    · have hsign : decide (-(n : ℤ) < 0) = true := by simp [hpos]
      exact hself (by simp only [if_true, ofInt, hsign, Int.natAbs_neg, Int.natAbs_natCast])

end Segmentation.Binary64
