import Mathlib
import Segmentation.Proofs.Binary64.Drift
import Segmentation.Proofs.Binary64.Order

/-!
# Powers of two and digits below the last bit

Multiplying by a power of two moves a normal number up by whole binades: its rank grows by as many
times `binade` (`units_add_binade`), before rounding and after (`nearestRank_mul_pow`). The product
with a power of two is therefore never rounded (`mul_ofNat_pow`).

Magnitudes of at least `2 ^ (53 + exponent)` units are multiples of `2 ^ (exponent + 1)` units
(`pow_dvd_units`), and so are the middles between them, up to a factor of two. So what is added to a
multiple of half that step, and is smaller than half that step, does not carry a number past a
middle (`isNearest_add`); only a number that already lies on a middle, and was rounded down from
there, goes to the next rank (`isNearest_succ_of_tie`). For whole numbers this is
`ofNat_add_of_isLowerTie` and `ofNat_add_of_not_isLowerTie`.
-/

set_option autoImplicit false

namespace Segmentation.Binary64

/-! ### Products with powers of two -/

/-- One binade up, a normal magnitude is twice as large. -/
theorem units_add_binade {rank : ℕ} (h : binade ≤ rank) (exponent : ℕ) :
    units (rank + exponent * binade) = units rank * 2 ^ exponent := by
  obtain ⟨spacing, count, rfl, hcount, hlower⟩ := exists_grid rank
  have hnormal : binade ≤ count := by
    rcases hlower with hzero | hnormal
    · rwa [hzero, Nat.zero_mul, Nat.zero_add] at h
    · exact hnormal
  have hrank : spacing * binade + count + exponent * binade =
      (spacing + exponent) * binade + count := by ring
  rw [hrank, units_grid _ hcount.le (Or.inr hnormal), units_grid _ hcount.le (Or.inr hnormal),
    pow_add, Nat.mul_assoc]

/-- Past the first normal number, the interval of a rank is moved by whole binades. -/
theorem IsNearest.mul_pow {rank numerator denominator : ℕ}
    (h : IsNearest rank numerator denominator) (hnormal : binade < rank) (exponent : ℕ) :
    IsNearest (rank + exponent * binade) (numerator * 2 ^ exponent) denominator := by
  have hself := units_add_binade hnormal.le exponent
  have hbelow : units (rank + exponent * binade - 1) = units (rank - 1) * 2 ^ exponent := by
    rw [Nat.sub_add_comm (Nat.one_le_of_lt hnormal)]
    exact units_add_binade (Nat.le_sub_one_of_lt hnormal) exponent
  have habove : units (rank + exponent * binade + 1) = units (rank + 1) * 2 ^ exponent := by
    rw [Nat.add_right_comm]
    exact units_add_binade (Nat.le_succ_of_le hnormal.le) exponent
  have hends : ∀ first second, (first * 2 ^ exponent + second * 2 ^ exponent) * denominator =
      (first + second) * denominator * 2 ^ exponent := fun first second ↦ by ring
  have hparity : (rank + exponent * binade) % 2 = rank % 2 := by
    simp only [binade]
    omega
  have hpos : 0 < 2 ^ exponent := Nat.two_pow_pos exponent
  refine ⟨?_, ?_, ?_, ?_⟩
  · rw [hself, hbelow, hends, ← Nat.mul_assoc]
    exact Nat.mul_le_mul_right _ h.lower
  · rw [hself, habove, hends, ← Nat.mul_assoc]
    exact Nat.mul_le_mul_right _ h.upper
  · rw [hself, hbelow, hends, ← Nat.mul_assoc, hparity]
    exact fun htie ↦ h.lower_tie (Nat.eq_of_mul_eq_mul_right hpos htie)
  · rw [hself, habove, hends, ← Nat.mul_assoc, hparity]
    exact fun htie ↦ h.upper_tie (Nat.eq_of_mul_eq_mul_right hpos htie)

/-- Rounding commutes with powers of two. -/
theorem nearestRank_mul_pow {numerator denominator : ℕ} (hpos : 0 < denominator)
    (hnormal : binade < nearestRank numerator denominator) (exponent : ℕ) :
    nearestRank (numerator * 2 ^ exponent) denominator =
      nearestRank numerator denominator + exponent * binade :=
  (nearestRank_eq_iff hpos).mpr ((isNearest_nearestRank numerator hpos).mul_pow hnormal exponent)

theorem ofNat_eq_ofRank (n : ℕ) : ofNat n = ofRank false (nearestRank (n * unitsPerOne) 1) := rfl

/-- A positive infinity is the rank past the finite ones. -/
theorem ofRank_of_le {rank : ℕ} (h : rankBound ≤ rank) (negative : Bool) :
    ofRank negative rank = .infinite negative := dif_neg (Nat.not_lt.mpr h)

/-- A product with a power of two is not rounded. -/
theorem mul_ofNat_pow {rank exponent : ℕ} (hnormal : binade ≤ rank) (hexponent : exponent ≤ 970) :
    (ofRank false rank).mul (ofNat (2 ^ exponent)) = ofRank false (rank + exponent * binade) := by
  have hholds := holds_ofNat Nat.one_le_two_pow hexponent
  rw [Nat.one_mul] at hholds
  obtain ⟨factor, hfactor, hunits⟩ := hholds
  rw [hfactor]
  rcases Nat.lt_or_ge rank rankBound with hfinite | hlarge
  · have hproduct : units rank * units factor =
        units (rank + exponent * binade) * unitsPerOne := by
      rw [hunits, units_add_binade hnormal, Nat.mul_assoc]
    rw [ofRank, dif_pos hfinite]
    simp only [Binary64.mul, ofUnits, Bool.xor_self]
    rw [nearestRank_of_eq_units unitsPerOne_pos hproduct]
  · have hne : factor.val ≠ 0 :=
      ne_zero_of_units (hunits ▸ Nat.mul_pos (Nat.two_pow_pos exponent) unitsPerOne_pos)
    rw [ofRank_of_le hlarge, ofRank_of_le (hlarge.trans (Nat.le_add_right _ _)), Binary64.mul,
      if_neg hne, Bool.xor_self]

/-! ### The step between large magnitudes -/

/-- Large magnitudes are multiples of a power of two. -/
theorem pow_dvd_units {rank exponent : ℕ} (h : 2 ^ (53 + exponent) ≤ units rank) :
    2 ^ (exponent + 1) ∣ units rank := by
  obtain ⟨spacing, count, rfl, hcount, hlower⟩ := exists_grid rank
  rw [units_grid spacing hcount.le hlower] at h ⊢
  have hbits : 2 ^ (53 + exponent) < 2 ^ (53 + spacing) := by
    have hbinade : 2 * binade = 2 ^ 53 := by decide
    rw [pow_add 2 53 spacing, ← hbinade]
    exact h.trans_lt (Nat.mul_lt_mul_of_pos_right hcount (Nat.two_pow_pos spacing))
  have hexponent : exponent + 1 ≤ spacing := by
    have hlt := (Nat.pow_lt_pow_iff_right (by decide)).mp hbits
    omega
  exact Dvd.dvd.mul_left (pow_dvd_pow 2 hexponent) count

/-- The same in multiples of one. -/
theorem pow_mul_dvd_units {rank exponent : ℕ} (h : 2 ^ (53 + exponent) * unitsPerOne ≤ units rank) :
    2 * (2 ^ exponent * unitsPerOne) ∣ units rank := by
  rw [pow_mul_unitsPerOne, Nat.add_assoc] at h
  rw [pow_mul_unitsPerOne, ← pow_succ']
  exact pow_dvd_units h

section Additions

variable {rank value step extra : ℕ}

/-- Two multiples of a step are equal, or a step apart at least. -/
theorem add_le_of_dvd {low high : ℕ} (hlow : step ∣ low) (hhigh : step ∣ high) (h : low < high) :
    low + step ≤ high := by
  have hstep := Nat.le_of_dvd (Nat.sub_pos_of_lt h) (Nat.dvd_sub hhigh hlow)
  omega

/-- A number that does not lie on the middle to the next rank keeps its rank if less than a step is
added. -/
theorem isNearest_add (h : IsNearest rank value 1) (hvalue : step ∣ value)
    (hself : 2 * step ∣ units rank) (hnext : 2 * step ∣ units (rank + 1)) (hextra : extra < step)
    (hne : 2 * value ≠ units rank + units (rank + 1)) : IsNearest rank (value + extra) 1 := by
  have hlower := h.lower
  have hupper := h.upper
  have htie := h.lower_tie
  rw [Nat.mul_one] at hlower hupper htie
  have hroom : 2 * value + 2 * step ≤ units rank + units (rank + 1) :=
    add_le_of_dvd (Nat.mul_dvd_mul_left 2 hvalue) (Nat.dvd_add hself hnext)
      (lt_of_le_of_ne hupper hne)
  constructor <;> rw [Nat.mul_one]
  · omega
  · omega
  · exact fun heq ↦ htie (by omega)
  · omega

/-- A number on the middle to the next rank has the next rank if anything below a step is added. -/
theorem isNearest_succ_of_tie (h : 2 * value = units rank + units (rank + 1))
    (hself : 2 * step ∣ units rank) (hnext : 2 * step ∣ units (rank + 1))
    (hafter : 2 * step ∣ units (rank + 1 + 1)) (hpos : 0 < extra) (hextra : extra < step) :
    IsNearest (rank + 1) (value + extra) 1 := by
  have hfirst := add_le_of_dvd hself hnext (units_lt_succ rank)
  have hsecond := add_le_of_dvd hnext hafter (units_lt_succ (rank + 1))
  -- The number lies strictly between two middles, so no tie is left to break.
  constructor <;> rw [Nat.mul_one]
  · rw [Nat.add_sub_cancel]
    omega
  · omega
  · rw [Nat.add_sub_cancel]
    omega
  · omega

end Additions

/-- A number of at least 53 bits has a rank of a magnitude of as many bits. -/
theorem le_units_nearestRank {exponent numerator : ℕ}
    (h : 2 ^ exponent * unitsPerOne ≤ numerator) :
    2 ^ exponent * unitsPerOne ≤ units (nearestRank numerator 1) := by
  obtain ⟨rank, hrank⟩ := exists_units_pow exponent
  have hle : nearestRank (units rank) 1 ≤ nearestRank numerator 1 :=
    nearestRank_mono Nat.one_pos Nat.one_pos (Nat.mul_le_mul_right 1 (hrank ▸ h))
  rw [nearestRank_units] at hle
  exact hrank ▸ units_mono hle

/-- A magnitude of more than 53 bits is normal. -/
theorem binade_lt_of_le_units {rank : ℕ} (h : 2 ^ 53 * unitsPerOne ≤ units rank) :
    binade < rank := by
  have hpos := unitsPerOne_pos
  generalize unitsPerOne = one at h hpos
  have hbits : 2 ^ 53 ≤ units rank := (Nat.le_mul_of_pos_right _ hpos).trans h
  by_contra hle
  rw [units_eq_of_le (Nat.not_lt.mp hle)] at hbits
  exact absurd (hbits.trans (Nat.not_lt.mp hle)) (by decide)

/-- The number lies on the middle between two doubles and is rounded down. -/
def IsLowerTie (n : ℕ) : Prop := ∃ rank : Fin rankBound, ofNat n = .finite false rank ∧
  2 * (n * unitsPerOne) = units rank + units (rank + 1)

section Below

variable {exponent value extra : ℕ} (hlarge : 2 ^ 53 * 2 ^ exponent ≤ value)
  (hvalue : 2 ^ exponent ∣ value) (hpos : 0 < extra) (hextra : extra < 2 ^ exponent)

include hlarge hvalue hpos hextra

/-- What is added to a large whole number below its last bit counts only if the number lies on the
middle between two doubles and is rounded down. -/
theorem nearestRank_add_below {rank : ℕ} (hrank : nearestRank (value * unitsPerOne) 1 = rank) :
    nearestRank ((value + extra) * unitsPerOne) 1 =
      if 2 * (value * unitsPerOne) = units rank + units (rank + 1) then rank + 1 else rank := by
  rw [← pow_add] at hlarge
  have hself : 2 ^ (53 + exponent) * unitsPerOne ≤ units rank :=
    hrank ▸ le_units_nearestRank (Nat.mul_le_mul_right unitsPerOne hlarge)
  have hnext := hself.trans (units_lt_succ rank).le
  have hafter := hnext.trans (units_lt_succ (rank + 1)).le
  have hstep : extra * unitsPerOne < 2 ^ exponent * unitsPerOne :=
    Nat.mul_lt_mul_of_pos_right hextra unitsPerOne_pos
  rw [Nat.add_mul, nearestRank_eq_iff Nat.one_pos]
  split
  · rename_i htie
    exact isNearest_succ_of_tie htie (pow_mul_dvd_units hself) (pow_mul_dvd_units hnext)
      (pow_mul_dvd_units hafter) (Nat.mul_pos hpos unitsPerOne_pos) hstep
  · rename_i hne
    exact isNearest_add ((nearestRank_eq_iff Nat.one_pos).mp hrank)
      (Nat.mul_dvd_mul_right hvalue unitsPerOne) (pow_mul_dvd_units hself)
      (pow_mul_dvd_units hnext) hstep hne

/-- Anything added to a number on a middle takes it to the upper neighbour. -/
theorem ofNat_add_of_isLowerTie (h : IsLowerTie value) : ∃ rank : Fin rankBound,
    ofNat value = .finite false rank ∧ ofNat (value + extra) = ofRank false (rank + 1) := by
  obtain ⟨rank, hdouble, htie⟩ := h
  have hrank : nearestRank (value * unitsPerOne) 1 = rank := (rank_eq_nearestRank hdouble).symm
  refine ⟨rank, hdouble, ?_⟩
  rw [ofNat_eq_ofRank, nearestRank_add_below hlarge hvalue hpos hextra hrank, if_pos htie]

/-- What is added to any other number below its last bit is rounded away. -/
theorem ofNat_add_of_not_isLowerTie (h : ¬IsLowerTie value) :
    ofNat (value + extra) = ofNat value := by
  rw [ofNat_eq_ofRank, ofNat_eq_ofRank, nearestRank_add_below hlarge hvalue hpos hextra rfl]
  split
  · rename_i htie
    -- Past the last finite rank, a rank more makes no difference.
    have hinfinite : rankBound ≤ nearestRank (value * unitsPerOne) 1 := by
      by_contra hlt
      have hfinite := Nat.not_le.mp hlt
      refine h ⟨⟨_, hfinite⟩, ?_, htie⟩
      rw [ofNat_eq_ofRank, ofRank, dif_pos hfinite]
    rw [ofRank_of_le hinfinite, ofRank_of_le (hinfinite.trans (Nat.le_succ _))]
  · rfl

end Below

/-! ### Sums -/

/-- The sum of two magnitudes is rounded once. -/
theorem add_finite {first second : Fin rankBound} (hpos : 0 < units first + units second) :
    (Binary64.finite false first).add (.finite false second) =
      ofUnits false (units first + units second) 1 := by
  have hsum : signedUnits false first + signedUnits false second =
      ((units first + units second : ℕ) : ℤ) := by
    simp only [signedUnits, Bool.false_eq_true, if_false]
    exact (Int.natCast_add _ _).symm
  have hsome : ((units first + units second : ℕ) : ℤ) ≠ 0 := by exact_mod_cast hpos.ne'
  have hsign : ¬((units first + units second : ℕ) : ℤ) < 0 :=
    Int.not_lt.mpr (Int.natCast_nonneg _)
  simp only [Binary64.add, hsum]
  rw [if_neg hsome, decide_eq_false hsign, Int.natAbs_natCast]

/-- The sum of two numbers held without error is their exact sum, rounded once. -/
theorem add_eq_ofRatio {x y : Binary64} {m n : ℕ} (hx : Holds x m) (hy : Holds y n) :
    x.add y = ofRatio false (m + n) 1 := by
  obtain ⟨first, rfl, hfirst⟩ := hx
  obtain ⟨second, rfl, hsecond⟩ := hy
  have hsum : units first + units second = (m + n) * unitsPerOne := by
    rw [hfirst, hsecond, Nat.add_mul]
  rcases Nat.eq_zero_or_pos (m + n) with hzero | hpos
  · have hnothing : signedUnits false first + signedUnits false second = 0 := by
      rw [hzero, Nat.zero_mul] at hsum
      simp only [signedUnits, Bool.false_eq_true, if_false]
      exact_mod_cast hsum
    simp only [Binary64.add, hnothing, if_true, Bool.and_self, signed_false]
    rw [hzero, ofRatio_zero, signed_false]
  · rw [add_finite (hsum ▸ Nat.mul_pos hpos unitsPerOne_pos), hsum, ofRatio]

/-- A small number is lost beside a large one. -/
theorem add_ofNat_of_lt {rank exponent n : ℕ}
    (hlarge : 2 ^ (53 + exponent) * unitsPerOne ≤ units rank) (hsmall : n < 2 ^ exponent)
    (hn : n ≤ 2 ^ 53) : (ofRank false rank).add (ofNat n) = ofRank false rank := by
  obtain ⟨term, hterm, hunits⟩ := holds_short hn
  rw [hterm]
  rcases Nat.lt_or_ge rank rankBound with hfinite | hinfinite
  · have hself : 2 * (2 ^ exponent * unitsPerOne) ∣ units rank := pow_mul_dvd_units hlarge
    have hnext : 2 * (2 ^ exponent * unitsPerOne) ∣ units (rank + 1) :=
      pow_mul_dvd_units (hlarge.trans (units_lt_succ rank).le)
    have hnear : IsNearest rank (units rank) 1 :=
      (nearestRank_eq_iff Nat.one_pos).mp (nearestRank_units rank)
    have hbelow : 2 * units rank ≠ units rank + units (rank + 1) := by
      have hlt := units_lt_succ rank
      omega
    have hkept : IsNearest rank (units rank + n * unitsPerOne) 1 :=
      isNearest_add hnear (dvd_of_mul_left_dvd hself) hself hnext
        (Nat.mul_lt_mul_of_pos_right hsmall unitsPerOne_pos) hbelow
    have hpos : 0 < units rank + units term :=
      Nat.add_pos_left ((Nat.mul_pos (Nat.two_pow_pos _) unitsPerOne_pos).trans_le hlarge) _
    have hrank : ofRank false rank = .finite false ⟨rank, hfinite⟩ := dif_pos hfinite
    rw [hrank, add_finite hpos, hunits, ofUnits, (nearestRank_eq_iff Nat.one_pos).mpr hkept, hrank]
  · rw [ofRank_of_le hinfinite, Binary64.add]

end Segmentation.Binary64
