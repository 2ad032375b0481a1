import Mathlib
import Segmentation.Proofs.Binary64.Exact

/-!
# How far rounding drifts

Rounding a magnitude of the normal range changes it by a factor of at most `roundingFactor`, and
any magnitude by that factor and half a unit (`within_nearestRank`, `near_nearestRank`). Factors
multiply along a calculation (`Within.mul`, `Within.div`). In the end they are turned into ranks:
two quotients that agree up to `count` parts in `2 ^ 53` and some units have ranks that differ by as
many at most, and one for the last rounding (`nearestRank_le_add`).
-/

set_option autoImplicit false

namespace Segmentation.Binary64

/-! ### Spacings -/

/-- Every rank lies on the grid of its binade. -/
theorem exists_grid (rank : ℕ) : ∃ spacing count, rank = spacing * binade + count ∧
    count < 2 * binade ∧ (spacing = 0 ∨ binade ≤ count) := by
  by_cases hlow : rank < binade
  · exact ⟨0, rank, by omega, by omega, Or.inl rfl⟩
  · refine ⟨rank / binade - 1, binade + rank % binade, ?_, ?_, Or.inr (Nat.le_add_right _ _)⟩
    · simp only [binade] at hlow ⊢
      omega
    · simp only [binade]
      omega

/-- The next rank is larger by a part in `2 ^ 53` at least. -/
theorem units_mul_le_succ (rank : ℕ) :
    units rank * (2 ^ 53 + 1) ≤ 2 ^ 53 * units (rank + 1) := by
  obtain ⟨spacing, count, rfl, hcount, hlower⟩ := exists_grid rank
  have hself := units_grid spacing hcount.le hlower
  have hnext := (units_grid_succ hcount.le hlower).1
  have hbinade : 2 * binade = 2 ^ 53 := by decide
  rw [hbinade] at hcount
  calc units (spacing * binade + count) * (2 ^ 53 + 1)
      = (2 ^ 53 * count + count) * 2 ^ spacing := by rw [hself]; ring
    _ ≤ (2 ^ 53 * count + 2 ^ 53) * 2 ^ spacing :=
      Nat.mul_le_mul_right _ (Nat.add_le_add_left hcount.le _)
    _ = 2 ^ 53 * ((count + 1) * 2 ^ spacing) := by ring
    _ ≤ 2 ^ 53 * units (spacing * binade + count + 1) := Nat.mul_le_mul_left _ hnext

/-- In the normal range the next rank is larger by a part in `2 ^ 52` at most. -/
theorem units_succ_le {rank : ℕ} (h : binade ≤ rank) :
    2 ^ 52 * units (rank + 1) ≤ units rank * (2 ^ 52 + 1) := by
  obtain ⟨spacing, count, rfl, hcount, hlower⟩ := exists_grid rank
  have hself := units_grid spacing hcount.le hlower
  have hnext := (units_grid_succ hcount.le hlower).2.resolve_right hcount.ne
  have hnormal : 2 ^ 52 ≤ count := by
    rcases hlower with hzero | hnormal
    · rw [hzero] at h
      simp only [binade] at h
      omega
    · exact hnormal
  calc 2 ^ 52 * units (spacing * binade + count + 1)
      = (2 ^ 52 * count + 2 ^ 52) * 2 ^ spacing := by rw [hnext]; ring
    _ ≤ (2 ^ 52 * count + count) * 2 ^ spacing :=
      Nat.mul_le_mul_right _ (Nat.add_le_add_left hnormal _)
    _ = units (spacing * binade + count) * (2 ^ 52 + 1) := by rw [hself]; ring

/-- Some ranks further up the magnitude is larger by as many parts in `2 ^ 53` at least. -/
theorem units_mul_le_add (rank count : ℕ) :
    units rank * (2 ^ 53 + count) ≤ 2 ^ 53 * units (rank + count) := by
  induction count with
  | zero => rw [Nat.add_zero, Nat.add_zero, Nat.mul_comm]
  | succ count ih =>
    have hnext := units_mul_le_succ (rank + count)
    have hmono : units rank ≤ units (rank + count) := units_mono (Nat.le_add_right _ _)
    calc units rank * (2 ^ 53 + (count + 1)) = units rank * (2 ^ 53 + count) + units rank := by ring
      _ ≤ 2 ^ 53 * units (rank + count) + units (rank + count) := Nat.add_le_add ih hmono
      _ = units (rank + count) * (2 ^ 53 + 1) := by ring
      _ ≤ 2 ^ 53 * units (rank + (count + 1)) := hnext

/-- Some ranks further up the magnitude is larger by as many units at least. -/
theorem units_add_le (rank count : ℕ) : units rank + count ≤ units (rank + count) := by
  induction count with
  | zero => exact le_rfl
  | succ count ih =>
    have hnext := units_lt_succ (rank + count)
    rw [← Nat.add_assoc, ← Nat.add_assoc]
    omega

/-! ### Quotients that are close -/

/-- A quotient that is not larger than another by more than some parts in `2 ^ 53` and some units
has no rank that is larger by more than as many, and one. -/
theorem nearestRank_le_add {numerator denominator numerator' denominator' parts extra : ℕ}
    (hpos : 0 < denominator) (hpos' : 0 < denominator')
    (h : (numerator : ℚ) / denominator ≤
      (1 + parts / 2 ^ 53) * (numerator' / denominator') + extra) :
    nearestRank numerator denominator ≤
      nearestRank numerator' denominator' + (parts + extra + 1) := by
  have hnear := isNearest_nearestRank numerator' hpos'
  set rank := nearestRank numerator' denominator'
  have hdenominator : (0 : ℚ) < denominator := by exact_mod_cast hpos
  have hdenominator' : (0 : ℚ) < denominator' := by exact_mod_cast hpos'
  have hupper : (numerator' : ℚ) / denominator' ≤ units (rank + 1) := by
    rw [div_le_iff₀ hdenominator']
    have hends : units rank + units (rank + 1) ≤ 2 * units (rank + 1) := by
      have hmono : units rank ≤ units (rank + 1) := units_mono (Nat.le_add_right rank 1)
      omega
    have hdouble : 2 * numerator' ≤ 2 * (units (rank + 1) * denominator') := by
      calc 2 * numerator' ≤ (units rank + units (rank + 1)) * denominator' := hnear.upper
        _ ≤ 2 * units (rank + 1) * denominator' := Nat.mul_le_mul_right _ hends
        _ = 2 * (units (rank + 1) * denominator') := by ring
    exact_mod_cast Nat.le_of_mul_le_mul_left hdouble (by decide)
  have hparts : (units (rank + 1) : ℚ) * (2 ^ 53 + parts) ≤ 2 ^ 53 * units (rank + 1 + parts) := by
    exact_mod_cast units_mul_le_add (rank + 1) parts
  have hextra : (units (rank + 1 + parts) : ℚ) + extra ≤ units (rank + 1 + parts + extra) := by
    exact_mod_cast units_add_le (rank + 1 + parts) extra
  have hfactor : (0 : ℚ) ≤ 1 + parts / 2 ^ 53 := by positivity
  have hbound : (numerator : ℚ) / denominator ≤ units (rank + 1 + parts + extra) := by
    calc (numerator : ℚ) / denominator
        ≤ (1 + parts / 2 ^ 53) * (numerator' / denominator') + extra := h
      _ ≤ (1 + parts / 2 ^ 53) * units (rank + 1) + extra := by gcongr
      _ = units (rank + 1) * (2 ^ 53 + parts) / 2 ^ 53 + extra := by ring
      _ ≤ 2 ^ 53 * units (rank + 1 + parts) / 2 ^ 53 + extra := by gcongr
      _ = units (rank + 1 + parts) + extra := by ring
      _ ≤ units (rank + 1 + parts + extra) := hextra
  rw [div_le_iff₀ hdenominator] at hbound
  have hnatural : numerator * 1 ≤ units (rank + 1 + parts + extra) * denominator := by
    rw [Nat.mul_one]
    exact_mod_cast hbound
  have hle := nearestRank_mono hpos Nat.one_pos hnatural
  rw [nearestRank_units] at hle
  omega

/-! ### Factors -/

/-- Neither number is more than a factor larger than the other. -/
def Within (factor x y : ℚ) : Prop := x ≤ factor * y ∧ y ≤ factor * x

/-- What rounding changes in the normal range. -/
def roundingFactor : ℚ := 2 ^ 53 / (2 ^ 53 - 1)

theorem roundingFactor_pos : 0 < roundingFactor := by
  unfold roundingFactor
  norm_num

theorem one_le_roundingFactor : 1 ≤ roundingFactor := by
  unfold roundingFactor
  norm_num

namespace Within

variable {c d x y z x' y' : ℚ}

theorem trans (h : Within c x y) (h' : Within d y z) (hc : 0 ≤ c) (hd : 0 ≤ d) :
    Within (c * d) x z := by
  constructor
  · calc x ≤ c * y := h.1
      _ ≤ c * (d * z) := mul_le_mul_of_nonneg_left h'.1 hc
      _ = c * d * z := by ring
  · calc z ≤ d * y := h'.2
      _ ≤ d * (c * x) := mul_le_mul_of_nonneg_left h.2 hd
      _ = c * d * x := by ring

theorem mul (h : Within c x y) (h' : Within d x' y') (hx : 0 ≤ x) (hy : 0 ≤ y) (hx' : 0 ≤ x')
    (hy' : 0 ≤ y') (hc : 0 ≤ c) : Within (c * d) (x * x') (y * y') := by
  constructor
  · calc x * x' ≤ c * y * (d * y') := mul_le_mul h.1 h'.1 hx' (mul_nonneg hc hy)
      _ = c * d * (y * y') := by ring
  · calc y * y' ≤ c * x * (d * x') := mul_le_mul h.2 h'.2 hy' (mul_nonneg hc hx)
      _ = c * d * (x * x') := by ring

theorem inv (h : Within c x y) (hx : 0 < x) (hy : 0 < y) : Within c x⁻¹ y⁻¹ := by
  constructor
  · rw [← div_eq_mul_inv, le_div_iff₀ hy, inv_mul_le_iff₀ hx, mul_comm x c]
    exact h.2
  · rw [← div_eq_mul_inv, le_div_iff₀ hx, inv_mul_le_iff₀ hy, mul_comm y c]
    exact h.1

theorem div (h : Within c x y) (h' : Within d x' y') (hx : 0 ≤ x) (hy : 0 ≤ y) (hx' : 0 < x')
    (hy' : 0 < y') (hc : 0 ≤ c) : Within (c * d) (x / x') (y / y') := by
  rw [div_eq_mul_inv, div_eq_mul_inv]
  exact h.mul (h'.inv hx' hy') hx hy (inv_nonneg.mpr hx'.le) (inv_nonneg.mpr hy'.le) hc

theorem refl (x : ℚ) : Within 1 x x := ⟨(one_mul x).ge, (one_mul x).ge⟩

theorem mul_right (h : Within c x y) (hz : 0 ≤ z) : Within c (x * z) (y * z) := by
  constructor
  · rw [← mul_assoc]
    exact mul_le_mul_of_nonneg_right h.1 hz
  · rw [← mul_assoc]
    exact mul_le_mul_of_nonneg_right h.2 hz

theorem mono (h : Within c x y) (hcd : c ≤ d) (hx : 0 ≤ x) (hy : 0 ≤ y) : Within d x y :=
  ⟨h.1.trans (mul_le_mul_of_nonneg_right hcd hy), h.2.trans (mul_le_mul_of_nonneg_right hcd hx)⟩

/-- A product of two rounded numbers, counted in units. -/
theorem product {unit : ℚ} (hx : Within c x (x' * unit)) (hy : Within d y (y' * unit))
    (hxpos : 0 < x) (hypos : 0 < y) (hx' : 0 < x') (hy' : 0 < y') (hunit : 0 < unit)
    (hc : 0 ≤ c) : Within (c * d) (x * y / unit) (x' * y' * unit) := by
  have hmul := hx.mul hy hxpos.le (mul_pos hx' hunit).le hypos.le (mul_pos hy' hunit).le hc
  have hscaled := hmul.mul_right (inv_pos.mpr hunit).le
  have hmiddle : x' * unit * (y' * unit) * unit⁻¹ = x' * y' * unit := by field_simp
  rwa [hmiddle, ← div_eq_mul_inv] at hscaled

/-- A quotient of two rounded numbers, counted in units. -/
theorem quotient {unit : ℚ} (hx : Within c x (x' * unit)) (hy : Within d y (y' * unit))
    (hxpos : 0 < x) (hypos : 0 < y) (hx' : 0 < x') (hy' : 0 < y') (hunit : 0 < unit)
    (hc : 0 ≤ c) : Within (c * d) (x * unit / y) (x' / y' * unit) := by
  have hdiv := hx.div hy hxpos.le (mul_pos hx' hunit).le hypos (mul_pos hy' hunit) hc
  have hscaled := hdiv.mul_right hunit.le
  have hfirst : x / y * unit = x * unit / y := by ring
  have hsecond : x' * unit / (y' * unit) * unit = x' / y' * unit := by field_simp
  rwa [hfirst, hsecond] at hscaled

end Within

/-! ### Rounding errors -/

variable {numerator denominator : ℕ}

/-- The interval of a rank, as rational numbers. -/
theorem nearestRank_bounds (hpos : 0 < denominator) :
    ((units (nearestRank numerator denominator - 1) : ℚ) +
        units (nearestRank numerator denominator)) / 2 ≤ numerator / denominator ∧
      (numerator : ℚ) / denominator ≤ ((units (nearestRank numerator denominator) : ℚ) +
        units (nearestRank numerator denominator + 1)) / 2 := by
  have hnear := isNearest_nearestRank numerator hpos
  have hdenominator : (0 : ℚ) < denominator := by exact_mod_cast hpos
  have hlower : ((units (nearestRank numerator denominator - 1) : ℚ) +
      units (nearestRank numerator denominator)) * denominator ≤ 2 * numerator := by
    exact_mod_cast hnear.lower
  have hupper : 2 * (numerator : ℚ) ≤ ((units (nearestRank numerator denominator) : ℚ) +
      units (nearestRank numerator denominator + 1)) * denominator := by
    exact_mod_cast hnear.upper
  constructor
  · rw [le_div_iff₀ hdenominator]
    linarith
  · rw [div_le_iff₀ hdenominator]
    linarith

/-- In the normal range, rounding changes a quotient by a factor only. -/
theorem within_nearestRank (hpos : 0 < denominator)
    (hnormal : binade ≤ nearestRank numerator denominator) :
    Within roundingFactor (units (nearestRank numerator denominator))
      (numerator / denominator) := by
  obtain ⟨hlower, hupper⟩ := @nearestRank_bounds numerator denominator hpos
  set rank := nearestRank numerator denominator
  have hnext : (2 : ℚ) ^ 52 * units (rank + 1) ≤ units rank * (2 ^ 52 + 1) := by
    exact_mod_cast units_succ_le hnormal
  have hprevious : (2 : ℚ) ^ 52 * units rank ≤ units (rank - 1) * 2 ^ 52 + units rank := by
    by_cases hfirst : rank = binade
    · have hself : units rank = units (rank - 1) + 1 := by
        rw [hfirst]
        decide
      have hvalue : units rank = 2 ^ 52 := by
        rw [hfirst]
        decide
      have hcast : (units rank : ℚ) = units (rank - 1) + 1 := by exact_mod_cast hself
      have hcastValue : (units rank : ℚ) = 2 ^ 52 := by exact_mod_cast hvalue
      linarith
    · have hbelow : binade ≤ rank - 1 := by omega
      have hstep : (2 : ℚ) ^ 52 * units (rank - 1 + 1) ≤ units (rank - 1) * (2 ^ 52 + 1) := by
        exact_mod_cast units_succ_le hbelow
      have hrank : rank - 1 + 1 = rank := by
        simp only [binade] at hnormal
        omega
      have hmono : (units (rank - 1) : ℚ) ≤ units rank := by
        exact_mod_cast units_mono (Nat.sub_le rank 1)
      rw [hrank] at hstep
      linarith
  have hunits : (0 : ℚ) ≤ units rank := Nat.cast_nonneg _
  unfold Within roundingFactor
  constructor
  · rw [div_mul_eq_mul_div, le_div_iff₀ (by norm_num)]
    linarith
  · rw [div_mul_eq_mul_div, le_div_iff₀ (by norm_num)]
    linarith

/-- Below the normal range the ranks are the units. -/
theorem units_eq_of_le {rank : ℕ} (h : rank ≤ binade) : units rank = rank := by
  rcases Nat.lt_or_eq_of_le h with hlt | heq
  · exact units_of_lt hlt
  · rw [heq]
    decide

/-- Anywhere, rounding changes a quotient by a factor and less than a unit. -/
theorem near_nearestRank (hpos : 0 < denominator) :
    (units (nearestRank numerator denominator) : ℚ) ≤
        roundingFactor * (numerator / denominator) + 1 ∧
      (numerator : ℚ) / denominator ≤
        roundingFactor * units (nearestRank numerator denominator) + 1 := by
  by_cases hnormal : binade ≤ nearestRank numerator denominator
  · obtain ⟨hupper, hlower⟩ := within_nearestRank hpos hnormal
    exact ⟨hupper.trans (le_add_of_nonneg_right zero_le_one),
      hlower.trans (le_add_of_nonneg_right zero_le_one)⟩
  · obtain ⟨hlower, hupper⟩ := @nearestRank_bounds numerator denominator hpos
    set rank := nearestRank numerator denominator
    have hself : (units rank : ℚ) = rank := by
      exact_mod_cast units_eq_of_le (show rank ≤ binade by omega)
    have hnext : (units (rank + 1) : ℚ) = rank + 1 := by
      exact_mod_cast units_eq_of_le (show rank + 1 ≤ binade by omega)
    have hprevious : (rank : ℚ) ≤ units (rank - 1) + 1 := by
      have hunits : rank ≤ units (rank - 1) + 1 := by
        rw [units_eq_of_le (show rank - 1 ≤ binade by omega)]
        omega
      exact_mod_cast hunits
    have hquotient : (0 : ℚ) ≤ numerator / denominator := by positivity
    have hrank : (0 : ℚ) ≤ rank := Nat.cast_nonneg _
    have hfactor := one_le_roundingFactor
    rw [hself, hnext] at hupper
    rw [hself] at hlower ⊢
    constructor
    · have hscale := mul_le_mul_of_nonneg_right hfactor hquotient
      linarith
    · have hscale := mul_le_mul_of_nonneg_right hfactor hrank
      linarith

/-- Two quotients that agree up to some parts in `2 ^ 53` and some units have ranks that agree up to
as many, and one. -/
theorem nearestRank_near {numerator' denominator' parts extra : ℕ} (hpos : 0 < denominator)
    (hpos' : 0 < denominator')
    (h : (numerator : ℚ) / denominator ≤
      (1 + parts / 2 ^ 53) * (numerator' / denominator') + extra)
    (h' : (numerator' : ℚ) / denominator' ≤
      (1 + parts / 2 ^ 53) * (numerator / denominator) + extra) :
    |(nearestRank numerator denominator : ℤ) - nearestRank numerator' denominator'| ≤
      parts + extra + 1 := by
  have hle := nearestRank_le_add hpos hpos' h
  have hge := nearestRank_le_add hpos' hpos h'
  rw [abs_sub_le_iff]
  omega

/-- A positive whole number that is not too large is held up to a factor. -/
theorem exists_within_ofNat {n : ℕ} (hpos : 0 < n) (hfinite : IsMagnitude (ofNat n)) :
    ∃ rank : Fin rankBound, ofNat n = .finite false rank ∧
      Within roundingFactor (units rank) (n * unitsPerOne) := by
  have hnormal : binade ≤ nearestRank (n * unitsPerOne) 1 := by
    have hunit : units binade ≤ n * unitsPerOne := by
      calc units binade = 2 ^ 52 := by decide
        _ ≤ 2 ^ (0 + 1074) := pow_le_pow_right₀ (by decide) (by decide)
        _ = unitsPerOne := by rw [← pow_mul_unitsPerOne, pow_zero, Nat.one_mul]
        _ ≤ n * unitsPerOne := Nat.le_mul_of_pos_left _ hpos
    rw [← nearestRank_units binade]
    exact nearestRank_mono Nat.one_pos Nat.one_pos (Nat.mul_le_mul_right 1 hunit)
  have hwithin := within_nearestRank Nat.one_pos hnormal
  obtain ⟨rank, hrank⟩ := hfinite
  refine ⟨rank, hrank, ?_⟩
  rw [Nat.cast_one, div_one, Nat.cast_mul, ← rank_eq_nearestRank hrank] at hwithin
  exact hwithin

/-- At most half a unit is rounded to nothing. -/
theorem nearestRank_of_small (hpos : 0 < denominator) (h : 2 * numerator ≤ denominator) :
    nearestRank numerator denominator = 0 := by
  have hone : units (0 + 1) = 1 := rfl
  refine (nearestRank_eq_iff hpos).mpr ⟨?_, ?_, fun _ ↦ rfl, fun _ ↦ rfl⟩
  · rw [units_zero]
    simp
  · rw [units_zero, hone, Nat.zero_add, Nat.one_mul]
    exact h

/-! ### Places that are close -/

/-- The numbers have places on the number line, at most some steps apart. -/
def Near (steps : ℤ) (x y : Binary64) : Prop :=
  ∃ a b, x.place? = some a ∧ y.place? = some b ∧ |a - b| ≤ steps

theorem near_self {x : Binary64} (h : x ≠ .nan) {steps : ℤ} (hsteps : 0 ≤ steps) :
    Near steps x x := by
  cases hplace : x.place? with
  | none => exact absurd (place?_eq_none_iff.mp hplace) h
  | some place => exact ⟨place, place, hplace, hplace, by simpa using hsteps⟩

/-- A finite number is as close to a rounded one as their ranks are. -/
theorem near_ofRank (negative : Bool) {rank : Fin rankBound} {other : ℕ} {steps : ℤ}
    (h : |(rank.val : ℤ) - other| ≤ steps) :
    Near steps (.finite negative rank) (ofRank negative other) := by
  obtain ⟨place, hplace, hclose⟩ : ∃ place : ℕ, (ofRank negative other).place? =
      some (if negative then -(place : ℤ) else place) ∧ |(rank.val : ℤ) - place| ≤ steps := by
    unfold ofRank
    split
    · exact ⟨other, rfl, h⟩
    · refine ⟨rankBound, rfl, ?_⟩
      have hrank := rank.isLt
      rw [abs_sub_le_iff] at h ⊢
      omega
  refine ⟨_, _, rfl, hplace, ?_⟩
  cases negative with
  | false => exact hclose
  | true =>
    rw [if_pos rfl, if_pos rfl, neg_sub_neg, abs_sub_comm]
    exact hclose

end Segmentation.Binary64
