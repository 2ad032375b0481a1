import Mathlib
import Segmentation.Proofs.Decimal.Layout

/-!
# Shortest forms of whole numbers

The search for the shortest form goes from coarse grids to fine ones, so it does not go past a grid
that has a point for the number (`level_le_shortestFrom`). A whole number of at most 53 bits lies on
the grid of the whole numbers itself; its shortest form is therefore the number, without its last
zeros (`exists_shortest_whole`).
-/

set_option autoImplicit false

namespace Segmentation.Decimal

open Binary64

variable {tie : Tie} {rank : ℕ}

/-- The search stops at a grid with a point, if not before. -/
theorem level_le_shortestFrom {level start : ℕ} (hpoint : gridPoint? tie rank level ≠ none)
    (hstart : level ≤ start) : level ≤ (shortestFrom tie rank start).2 := by
  induction start with
  | zero => rw [shortestFrom]; exact hstart
  | succ start ih =>
    rw [shortestFrom]
    split
    · exact hstart
    · rename_i hnone
      refine ih (Nat.le_of_lt_succ (lt_of_le_of_ne hstart ?_))
      rintro rfl
      exact hpoint hnone

/-- A number that lies on a grid has a point there. -/
theorem gridPoint?_of_middle {level count : ℕ} (h : middle rank = count * gridStep level) :
    gridPoint? tie rank level ≠ none := by
  have hbelow : middle rank / gridStep level * gridStep level = middle rank := by
    rw [h, Nat.mul_div_cancel _ (gridStep_pos level)]
  have hlower : roundsTo rank (middle rank / gridStep level * gridStep level) = true := by
    rw [hbelow]
    exact roundsTo_middle rank
  unfold gridPoint?
  simp only [hlower, Bool.true_and, if_true]
  split <;> simp

/-- The search starts above every grid with a point that is not zero. -/
theorem level_le_startLevel {level count : ℕ} (hcount : 0 < count)
    (h : middle rank = count * gridStep level) (hlevel : level ≤ 1384) :
    level ≤ startLevel rank := by
  unfold startLevel
  simp only
  split
  · rename_i hestimate
    have hupper : middle rank ≤ upperEnd rank := by
      have hmono : units rank ≤ units (rank + 1) := units_mono (Nat.le_add_right rank 1)
      rw [middle, upperEnd]
      exact Nat.mul_le_mul_right _ (by omega)
    have hstep : gridStep level < gridStep (((units rank).log2 * 30103 + 75199481) / 100000) :=
      calc gridStep level ≤ count * gridStep level := Nat.le_mul_of_pos_left _ hcount
        _ = middle rank := h.symm
        _ ≤ upperEnd rank := hupper
        _ < _ := hestimate
    refine Nat.le_of_lt (Nat.lt_of_not_le ?_)
    intro hle
    rw [gridStep_eq, gridStep_eq] at hstep
    have hmono := Nat.mul_le_mul_right (2 * unitsPerOne)
      (pow_le_pow_right₀ (show 1 ≤ 10 by decide) hle)
    exact absurd hstep (Nat.not_lt.mpr hmono)
  · exact hlevel

/-- The shortest form is a point of a grid that is not finer than one with a point. -/
theorem shortest_induction_of_point {P : Decimal → Prop} {level : ℕ} (tie : Tie) (negative : Bool)
    (rank : ℕ) (hpoint : gridPoint? tie rank level ≠ none) (hlevel : level ≤ startLevel rank)
    (h : ∀ point other, level ≤ other → roundsTo rank (point * gridStep other) = true →
      P ⟨negative, point, (other : ℤ) - 1074⟩) :
    P (shortest tie negative rank) := by
  have hparts : shortest tie negative rank =
      ⟨negative, (shortestFrom tie rank (startLevel rank)).1,
        ((shortestFrom tie rank (startLevel rank)).2 : ℤ) - 1074⟩ := rfl
  rw [hparts]
  exact h _ _ (level_le_shortestFrom hpoint hlevel)
    (roundsTo_shortestFrom tie rank (startLevel rank))

/-- Of the whole numbers of at most 53 bits, only one rounds to a rank. -/
theorem eq_of_nearestRank {m k : ℕ} (hm : m < 2 ^ 53) (hunits : units rank = m * unitsPerOne)
    (h : nearestRank (k * unitsPerOne) 1 = rank) : k = m := by
  have hexact : ∀ {n : ℕ}, n ≤ 2 ^ 53 →
      units (nearestRank (n * unitsPerOne) 1) = n * unitsPerOne := by
    intro n hn
    obtain ⟨other, -, hother⟩ := holds_short hn
    have hrank : nearestRank (n * unitsPerOne) 1 = other :=
      nearestRank_of_eq_units Nat.one_pos (by rw [Nat.mul_one, hother])
    rw [hrank, hother]
  have hle : k ≤ 2 ^ 53 := by
    refine Nat.le_of_lt (Nat.lt_of_not_le ?_)
    intro hlarge
    have hmono := units_mono (nearestRank_mono Nat.one_pos Nat.one_pos
      (Nat.mul_le_mul_right 1 (Nat.mul_le_mul_right unitsPerOne hlarge)))
    rw [hexact le_rfl, h, hunits] at hmono
    exact absurd (Nat.le_of_mul_le_mul_right hmono unitsPerOne_pos) (Nat.not_le.mpr hm)
  have hsame := hexact hle
  rw [h, hunits] at hsame
  exact (Nat.eq_of_mul_eq_mul_right unitsPerOne_pos hsame).symm

/-- The shortest form of a whole number is the number. -/
theorem exists_shortest_whole (tie : Tie) (negative : Bool) {m : ℕ} (hpos : 0 < m)
    (hm : m < 2 ^ 53) (hunits : units rank = m * unitsPerOne) :
    ∃ exponent : ℕ, (shortest tie negative rank).exponent = exponent ∧
      (shortest tie negative rank).coefficient * 10 ^ exponent = m := by
  have hgrid : middle rank = m * gridStep 1074 := by
    rw [middle, hunits, gridStep_eq, ← resolution_eq]
    ring
  refine shortest_induction_of_point
    (P := fun d ↦ ∃ exponent : ℕ, d.exponent = exponent ∧ d.coefficient * 10 ^ exponent = m)
    tie negative rank (gridPoint?_of_middle hgrid)
    (level_le_startLevel hpos hgrid (by decide)) ?_
  intro point other hother hfound
  have hexponent : (other : ℤ) - 1074 = (other - 1074 : ℕ) := by omega
  refine ⟨other - 1074, hexponent, ?_⟩
  have hrank := nearestRank_of_roundsTo negative hfound
  simp only [hexponent, numerator, denominator, Int.toNat_natCast, Int.toNat_neg_natCast,
    pow_zero] at hrank
  exact eq_of_nearestRank hm hunits hrank

end Segmentation.Decimal
