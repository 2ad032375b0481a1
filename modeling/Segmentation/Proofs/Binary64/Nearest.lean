import Mathlib
import Segmentation.Binary64.Arithmetic

/-!
# Rounding to the nearest double

The reals that round to a rank form an interval: from half way to the rank below up to half way to
the rank above, with both ends included exactly when the rank is even. `IsNearest` states that a
quotient of natural numbers lies in the interval of a rank, without reference to how the rank was
found. `isNearest_nearestRank` shows that `nearestRank` finds such a rank, and `IsNearest.le` that
larger quotients have larger ranks. The intervals therefore do not overlap, so that rounding depends
on the value of a quotient only (`nearestRank_congr`), keeps the order (`nearestRank_mono`) and is
determined by the interval (`nearestRank_eq_iff`).
-/

set_option autoImplicit false

namespace Segmentation

/-! ### Halves -/

/-- A quotient half way between two integers goes to the even one: seen from below. -/
theorem roundHalfEven_tie_above (numerator : ℕ) {denominator : ℕ} (h : 0 < denominator)
    (htie : 2 * numerator = (2 * roundHalfEven numerator denominator + 1) * denominator) :
    roundHalfEven numerator denominator % 2 = 0 := by
  have hdiv := Nat.div_add_mod numerator denominator
  have hmod := Nat.mod_lt numerator h
  simp only [roundHalfEven] at htie ⊢
  generalize numerator / denominator = quotient at hdiv htie ⊢
  generalize numerator % denominator = rest at hdiv hmod htie ⊢
  split at htie
  · rename_i hlow
    rw [if_pos hlow]
    rcases hlow with hlow | hlow
    · nlinarith
    · exact hlow.2
  · nlinarith

/-- A quotient half way between two integers goes to the even one: seen from above. -/
theorem roundHalfEven_tie_below (numerator : ℕ) {denominator : ℕ} (h : 0 < denominator)
    (htie : 2 * roundHalfEven numerator denominator * denominator = 2 * numerator + denominator) :
    roundHalfEven numerator denominator % 2 = 0 := by
  have hdiv := Nat.div_add_mod numerator denominator
  have hmod := Nat.mod_lt numerator h
  simp only [roundHalfEven] at htie ⊢
  generalize numerator / denominator = quotient at hdiv htie ⊢
  generalize numerator % denominator = rest at hdiv hmod htie ⊢
  split at htie
  · nlinarith
  · rename_i hhigh
    rw [if_neg hhigh]
    have hrest : 2 * rest = denominator := by nlinarith
    have hodd : quotient % 2 ≠ 0 := fun heven ↦ hhigh (Or.inr ⟨hrest, heven⟩)
    omega

namespace Binary64

/-! ### Magnitudes on a grid -/

/-- The magnitude of the rank that lies `count` spacings up from zero, on the grid of a binade. -/
theorem units_grid (spacing : ℕ) {count : ℕ} (hupper : count ≤ 2 * binade)
    (hlower : spacing = 0 ∨ binade ≤ count) :
    units (spacing * binade + count) = count * 2 ^ spacing := by
  rcases Nat.lt_or_ge count binade with hsmall | hlarge
  · have hzero : spacing = 0 := hlower.resolve_right (Nat.not_le.mpr hsmall)
    rw [hzero, Nat.zero_mul, Nat.zero_add, units_of_lt hsmall, pow_zero, Nat.mul_one]
  · have hrank : binade ≤ spacing * binade + count := hlarge.trans (Nat.le_add_left _ _)
    rw [units_of_le hrank, Nat.pow_eq]
    rcases Nat.lt_or_eq_of_le hupper with hlt | heq
    · have hparts : (spacing * binade + count) % binade = count - binade ∧
          (spacing * binade + count) / binade - 1 = spacing := by
        simp only [binade] at hlarge hlt ⊢
        omega
      rw [hparts.1, hparts.2, Nat.add_sub_cancel' hlarge]
    · have hparts : (spacing * binade + count) % binade = 0 ∧
          (spacing * binade + count) / binade - 1 = spacing + 1 := by
        simp only [binade] at heq ⊢
        omega
      rw [hparts.1, hparts.2, heq, pow_succ]
      ring

/-- Magnitudes are ordered as their ranks are. -/
theorem units_mono {low high : ℕ} (h : low ≤ high) : units low ≤ units high := by
  rcases Nat.lt_or_eq_of_le h with hlt | heq
  · exact (units_strictMono hlt).le
  · rw [heq]

theorem units_zero : units 0 = 0 := rfl

theorem ne_zero_of_units {rank : ℕ} (h : 0 < units rank) : rank ≠ 0 := by
  rintro rfl
  exact Nat.lt_irrefl 0 h

/-! ### The interval of a rank -/

/-- The quotient lies in the interval of the reals that round to the rank. -/
structure IsNearest (rank numerator denominator : ℕ) : Prop where
  lower : (units (rank - 1) + units rank) * denominator ≤ 2 * numerator
  upper : 2 * numerator ≤ (units rank + units (rank + 1)) * denominator
  lower_tie : 2 * numerator = (units (rank - 1) + units rank) * denominator → rank % 2 = 0
  upper_tie : 2 * numerator = (units rank + units (rank + 1)) * denominator → rank % 2 = 0

/-- Larger quotients lie in the intervals of larger ranks. -/
theorem IsNearest.le {rank numerator denominator rank' numerator' denominator' : ℕ}
    (hpos : 0 < denominator) (hpos' : 0 < denominator')
    (h : IsNearest rank numerator denominator) (h' : IsNearest rank' numerator' denominator')
    (hle : numerator * denominator' ≤ numerator' * denominator) : rank ≤ rank' := by
  by_contra hlt
  have hnext : rank' + 1 ≤ rank := Nat.lt_of_not_le hlt
  -- The upper end of the lower interval is not above the lower end of the upper one.
  have hends : units rank' + units (rank' + 1) ≤ units (rank - 1) + units rank :=
    Nat.add_le_add (units_mono (by omega)) (units_mono hnext)
  have hlow : (units (rank - 1) + units rank) * (denominator * denominator') ≤
      2 * (numerator * denominator') := by
    calc (units (rank - 1) + units rank) * (denominator * denominator')
        = (units (rank - 1) + units rank) * denominator * denominator' := by ring
      _ ≤ 2 * numerator * denominator' := Nat.mul_le_mul_right _ h.lower
      _ = 2 * (numerator * denominator') := by ring
  have hhigh : 2 * (numerator' * denominator) ≤
      (units rank' + units (rank' + 1)) * (denominator * denominator') := by
    calc 2 * (numerator' * denominator) = 2 * numerator' * denominator := by ring
      _ ≤ (units rank' + units (rank' + 1)) * denominator' * denominator :=
        Nat.mul_le_mul_right _ h'.upper
      _ = (units rank' + units (rank' + 1)) * (denominator * denominator') := by ring
  have hprod : 0 < denominator * denominator' := Nat.mul_pos hpos hpos'
  have hspread := Nat.mul_le_mul_right (denominator * denominator') hends
  -- So all of them are one point, which is the common end of neighbouring intervals.
  have hmeet : units rank' + units (rank' + 1) = units (rank - 1) + units rank :=
    Nat.eq_of_mul_eq_mul_right hprod (by omega)
  have hneighbour : rank = rank' + 1 := by
    by_contra hne
    have hfar : rank' + 1 < rank := by omega
    have hstrict := units_strictMono hfar
    have hbelow : units rank' ≤ units (rank - 1) := units_mono (by omega)
    omega
  have hties : 2 * numerator * denominator' =
      (units (rank - 1) + units rank) * denominator * denominator' := by
    have hcomm : (units (rank - 1) + units rank) * denominator * denominator' =
        (units (rank - 1) + units rank) * (denominator * denominator') := by ring
    have hdouble : 2 * numerator * denominator' = 2 * (numerator * denominator') := by ring
    rw [hcomm, hdouble]
    rw [← hmeet] at hlow ⊢
    omega
  have hties' : 2 * numerator' * denominator =
      (units rank' + units (rank' + 1)) * denominator' * denominator := by
    have hcomm : (units rank' + units (rank' + 1)) * denominator' * denominator =
        (units rank' + units (rank' + 1)) * (denominator * denominator') := by ring
    have hdouble : 2 * numerator' * denominator = 2 * (numerator' * denominator) := by ring
    rw [hcomm, hdouble]
    rw [← hmeet] at hlow
    omega
  have heven := h.lower_tie (Nat.eq_of_mul_eq_mul_right hpos' hties)
  have heven' := h'.upper_tie (Nat.eq_of_mul_eq_mul_right hpos hties')
  omega

/-- The rank above a grid point lies at the next grid point or, past the end of the binade, beyond
it. -/
theorem units_grid_succ {spacing count : ℕ} (hupper : count ≤ 2 * binade)
    (hlower : spacing = 0 ∨ binade ≤ count) :
    (count + 1) * 2 ^ spacing ≤ units (spacing * binade + count + 1) ∧
      (units (spacing * binade + count + 1) = (count + 1) * 2 ^ spacing ∨ count = 2 * binade) := by
  rcases Nat.lt_or_eq_of_le hupper with hlt | heq
  · have hgrid : units (spacing * binade + (count + 1)) = (count + 1) * 2 ^ spacing :=
      units_grid spacing hlt (hlower.imp_right (Nat.le_succ_of_le ·))
    rw [← Nat.add_assoc] at hgrid
    exact ⟨hgrid.ge, Or.inl hgrid⟩
  · have hgrid : units ((spacing + 1) * binade + (binade + 1)) =
        (binade + 1) * 2 ^ (spacing + 1) :=
      units_grid (spacing + 1) (by decide) (Or.inr (Nat.le_succ _))
    have hrank : spacing * binade + count + 1 = (spacing + 1) * binade + (binade + 1) := by
      rw [heq]
      ring
    have hmul : (binade + 1) * (2 ^ spacing * 2) = (2 * binade + 2) * 2 ^ spacing := by ring
    rw [hrank, hgrid, heq, pow_succ, hmul]
    exact ⟨Nat.mul_le_mul_right _ (by decide), Or.inr rfl⟩

/-- The rank below a grid point lies at the previous grid point, except at the start of a
binade. -/
theorem units_grid_pred {spacing count : ℕ} (hupper : count + 1 ≤ 2 * binade)
    (hlower : spacing = 0 ∨ binade ≤ count) :
    units (spacing * binade + (count + 1) - 1) = count * 2 ^ spacing := by
  rw [← Nat.add_assoc, Nat.add_sub_cancel]
  exact units_grid spacing (Nat.le_of_succ_le hupper) hlower

section Grid

variable {spacing count numerator denominator : ℕ}

/-- The parity of a grid point is the parity of its rank. -/
theorem grid_mod_two (spacing count : ℕ) : (spacing * binade + count) % 2 = count % 2 := by
  simp only [binade]
  omega

/-- A quotient that is rounded to a grid point lies below the upper end of its interval. -/
theorem le_upper_of_grid (hpos : 0 < denominator) (hupper : count ≤ 2 * binade)
    (hlower : spacing = 0 ∨ binade ≤ count)
    (hcount : roundHalfEven numerator (denominator * 2 ^ spacing) = count) :
    2 * numerator ≤
        (units (spacing * binade + count) + units (spacing * binade + count + 1)) * denominator ∧
      (2 * numerator =
        (units (spacing * binade + count) + units (spacing * binade + count + 1)) * denominator →
          (spacing * binade + count) % 2 = 0) := by
  have hstep : 0 < denominator * 2 ^ spacing := Nat.mul_pos hpos (Nat.two_pow_pos _)
  have hnear := roundHalfEven_near numerator hstep
  have htie := roundHalfEven_tie_above numerator hstep
  rw [hcount] at hnear htie
  have hself : units (spacing * binade + count) = count * 2 ^ spacing :=
    units_grid spacing hupper hlower
  have hnext := units_grid_succ hupper hlower
  have hends : (count * 2 ^ spacing + (count + 1) * 2 ^ spacing) * denominator =
      (2 * count + 1) * (denominator * 2 ^ spacing) := by ring
  rw [hself, grid_mod_two]
  constructor
  · calc 2 * numerator ≤ (2 * count + 1) * (denominator * 2 ^ spacing) := hnear.1
      _ = (count * 2 ^ spacing + (count + 1) * 2 ^ spacing) * denominator := hends.symm
      _ ≤ (count * 2 ^ spacing + units (spacing * binade + count + 1)) * denominator :=
        Nat.mul_le_mul_right _ (Nat.add_le_add_left hnext.1 _)
  · intro hmeet
    rcases hnext.2 with heq | heq
    · rw [heq, hends] at hmeet
      exact htie hmeet
    · rw [heq]
      decide

/-- A quotient that is rounded to a grid point lies above the lower end of its interval. -/
theorem lower_le_of_grid (hpos : 0 < denominator) (hupper : count ≤ 2 * binade)
    (hlower : spacing = 0 ∨ binade ≤ count)
    (habove : spacing ≠ 0 → binade * (denominator * 2 ^ spacing) ≤ numerator)
    (hcount : roundHalfEven numerator (denominator * 2 ^ spacing) = count) :
    (units (spacing * binade + count - 1) + units (spacing * binade + count)) * denominator ≤
        2 * numerator ∧
      (2 * numerator =
        (units (spacing * binade + count - 1) + units (spacing * binade + count)) * denominator →
          (spacing * binade + count) % 2 = 0) := by
  have hstep : 0 < denominator * 2 ^ spacing := Nat.mul_pos hpos (Nat.two_pow_pos _)
  have hnear := roundHalfEven_near numerator hstep
  have htie := roundHalfEven_tie_below numerator hstep
  rw [hcount] at hnear htie
  have hself : units (spacing * binade + count) = count * 2 ^ spacing :=
    units_grid spacing hupper hlower
  rw [grid_mod_two]
  -- Below a grid point lies the previous one, unless the point is the first of its binade.
  by_cases hfirst : count = binade ∧ spacing ≠ 0
  · have hbelow := Nat.mul_le_mul_right denominator
      (units_mono (Nat.sub_le (spacing * binade + count) 1))
    have hvalue : units (spacing * binade + count) * denominator ≤ numerator := by
      rw [hself, hfirst.1]
      calc binade * 2 ^ spacing * denominator = binade * (denominator * 2 ^ spacing) := by ring
        _ ≤ numerator := habove hfirst.2
    constructor
    · rw [Nat.add_mul]
      omega
    · intro _
      rw [hfirst.1]
      decide
  · rcases Nat.eq_zero_or_pos count with hzero | hcountPos
    · have hspacing : spacing = 0 := hlower.resolve_right (by rw [hzero]; decide)
      rw [hzero, hspacing, Nat.zero_mul]
      simp [units_zero]
    · obtain ⟨previous, rfl⟩ : ∃ previous, count = previous + 1 := ⟨count - 1, by omega⟩
      have hprevious : spacing = 0 ∨ binade ≤ previous := by
        rcases hlower with hzero | hlarge
        · exact Or.inl hzero
        · by_cases hzero : spacing = 0
          · exact Or.inl hzero
          · have hne : previous + 1 ≠ binade := fun heq ↦ hfirst ⟨heq, hzero⟩
            exact Or.inr (by omega)
      have hends : (previous * 2 ^ spacing + (previous + 1) * 2 ^ spacing) * denominator +
          denominator * 2 ^ spacing = 2 * (previous + 1) * (denominator * 2 ^ spacing) := by ring
      rw [units_grid_pred hupper hprevious, hself]
      constructor
      · have := hnear.2
        omega
      · intro hmeet
        exact htie (by omega)

/-- Rounding to the nearest multiple of the spacing of a binade gives the nearest rank, for a
quotient in that binade. -/
theorem isNearest_grid (hpos : 0 < denominator) (hupper : count ≤ 2 * binade)
    (hlower : spacing = 0 ∨ binade ≤ count)
    (habove : spacing ≠ 0 → binade * (denominator * 2 ^ spacing) ≤ numerator)
    (hcount : roundHalfEven numerator (denominator * 2 ^ spacing) = count) :
    IsNearest (spacing * binade + count) numerator denominator := by
  have hlow := lower_le_of_grid hpos hupper hlower habove hcount
  have hhigh := le_upper_of_grid hpos hupper hlower hcount
  exact ⟨hlow.1, hhigh.1, hlow.2, hhigh.2⟩

end Grid

/-- Rounding finds the rank in whose interval a quotient lies. -/
theorem isNearest_nearestRank (numerator : ℕ) {denominator : ℕ} (hpos : 0 < denominator) :
    IsNearest (nearestRank numerator denominator) numerator denominator := by
  simp only [nearestRank, Nat.pow_eq]
  set spacing := (numerator / denominator).log2 - 52 with hspacing
  have hstep : 0 < denominator * 2 ^ spacing := Nat.mul_pos hpos (Nat.two_pow_pos _)
  have hnear := roundHalfEven_near numerator hstep
  -- The quotient is at most 53 bits long on this grid, and exactly that long if it is not the
  -- finest one.
  have hbelow : numerator < 2 * binade * (denominator * 2 ^ spacing) := by
    have hlog : numerator / denominator < 2 ^ (53 + spacing) :=
      Nat.lt_log2_self.trans_le (Nat.pow_le_pow_right (by decide) (by omega))
    calc numerator < 2 ^ (53 + spacing) * denominator := (Nat.div_lt_iff_lt_mul hpos).mp hlog
      _ = 2 * binade * (denominator * 2 ^ spacing) := by
        rw [pow_add]
        simp only [binade]
        ring
  have habove : spacing ≠ 0 → binade * (denominator * 2 ^ spacing) ≤ numerator := by
    intro hne
    have hlog : (numerator / denominator).log2 = 52 + spacing := by omega
    have hquotient : numerator / denominator ≠ 0 := by
      intro hzero
      rw [hzero, Nat.log2_zero] at hlog
      omega
    have hpow := Nat.log2_self_le hquotient
    rw [hlog] at hpow
    calc binade * (denominator * 2 ^ spacing) = 2 ^ (52 + spacing) * denominator := by
          rw [pow_add]
          simp only [binade]
          ring
      _ ≤ numerator / denominator * denominator := Nat.mul_le_mul_right _ hpow
      _ ≤ numerator := Nat.div_mul_le_self _ _
  refine isNearest_grid hpos ?_ ?_ habove rfl
  · by_contra hgt
    have hmul := Nat.mul_le_mul_right (denominator * 2 ^ spacing) (Nat.succ_le_of_lt
      (Nat.lt_of_not_le hgt))
    have := hnear.2
    rw [Nat.succ_mul] at hmul
    rw [Nat.mul_assoc] at this
    omega
  · by_cases hzero : spacing = 0
    · exact Or.inl hzero
    · refine Or.inr (Nat.not_lt.mp ?_)
      intro hlt
      have hmul := Nat.mul_le_mul_right (denominator * 2 ^ spacing) (Nat.succ_le_of_lt hlt)
      have := hnear.1
      have := habove hzero
      rw [Nat.succ_mul] at hmul
      rw [Nat.add_mul, Nat.one_mul, Nat.mul_assoc] at *
      omega

/-- The rank found by rounding is the one in whose interval the quotient lies. -/
theorem nearestRank_eq_iff {numerator denominator rank : ℕ} (hpos : 0 < denominator) :
    nearestRank numerator denominator = rank ↔ IsNearest rank numerator denominator := by
  have hfound := isNearest_nearestRank numerator hpos
  constructor
  · intro heq
    rw [← heq]
    exact hfound
  · intro hnear
    exact le_antisymm (hfound.le hpos hpos hnear le_rfl) (hnear.le hpos hpos hfound le_rfl)

/-- Rounding keeps the order of quotients. -/
theorem nearestRank_mono {numerator denominator numerator' denominator' : ℕ}
    (hpos : 0 < denominator) (hpos' : 0 < denominator')
    (hle : numerator * denominator' ≤ numerator' * denominator) :
    nearestRank numerator denominator ≤ nearestRank numerator' denominator' :=
  (isNearest_nearestRank numerator hpos).le hpos hpos' (isNearest_nearestRank numerator' hpos') hle

/-- Equal quotients are rounded alike, however they are written. -/
theorem nearestRank_congr {numerator denominator numerator' denominator' : ℕ}
    (hpos : 0 < denominator) (hpos' : 0 < denominator')
    (heq : numerator * denominator' = numerator' * denominator) :
    nearestRank numerator denominator = nearestRank numerator' denominator' :=
  le_antisymm (nearestRank_mono hpos hpos' heq.le) (nearestRank_mono hpos' hpos heq.ge)

/-- A quotient that is the magnitude of a rank rounds to it. -/
theorem nearestRank_of_eq_units {numerator denominator rank : ℕ} (hpos : 0 < denominator)
    (heq : numerator = units rank * denominator) : nearestRank numerator denominator = rank := by
  have hsame : nearestRank numerator denominator = nearestRank (units rank) 1 :=
    nearestRank_congr hpos Nat.one_pos (by rw [heq, Nat.mul_one])
  rw [hsame, nearestRank_units]

end Binary64

end Segmentation
