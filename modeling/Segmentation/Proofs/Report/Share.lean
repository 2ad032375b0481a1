import Mathlib
import Segmentation.Proofs.Binary64.Drift
import Segmentation.Proofs.Report.Members
import Segmentation.Report.Rendering

/-!
# The share of a report

The share is rounded twice: the quotient to a double, and that to a tenth of a percent. With fewer
than `10 ^ 8` events the first rounding is too small to matter to the second, because a quotient
that is not half way between two tenths is far from it (`nearest_tenths`). So the tenths in the
table are nearest to the exact quotient (`Counted.exists_tenths`), and that alone makes them lie
between none and a whole (`IsNearestTenth.le_whole`).
-/

set_option autoImplicit false

namespace Segmentation

/-! ### Percentages as doubles -/

namespace Binary64

theorem pow_le_unitsPerOne : 2 ^ 53 ≤ unitsPerOne := by
  rw [← Nat.one_mul unitsPerOne, ← pow_zero 2, pow_mul_unitsPerOne]
  exact pow_le_pow_right₀ (by decide) (by omega)

/-- A quotient of at most a hundred is rounded to a magnitude. -/
theorem isMagnitude_ofRatio_of_le {numerator denominator : ℕ} (hpos : 0 < denominator)
    (h : numerator ≤ 100 * denominator) : IsMagnitude (ofRatio false numerator denominator) := by
  obtain ⟨rank, hrank⟩ := exists_units_pow 7
  have hfinite : rank < rankBound := by
    rw [lt_rankBound_iff, hrank]
    exact Nat.mul_lt_mul_of_pos_right (pow_lt_pow_right₀ (by decide) (by decide)) unitsPerOne_pos
  refine isMagnitude_ofUnits hpos hfinite ?_
  calc numerator * unitsPerOne ≤ 2 ^ 7 * denominator * unitsPerOne :=
        Nat.mul_le_mul_right _ (by omega)
    _ = units rank * denominator := by rw [hrank, Nat.mul_right_comm]

/-- A magnitude that is a quotient of at most a hundred, but for a rounding, is next to it. -/
theorem abs_div_sub_le {magnitude quotient unit : ℚ} (hunit : 2 ^ 53 ≤ unit)
    (hquotient : quotient ≤ 100) (hupper : magnitude ≤ roundingFactor * (quotient * unit) + 1)
    (hlower : quotient * unit ≤ roundingFactor * magnitude + 1) :
    |magnitude / unit - quotient| ≤ 102 / (2 ^ 53 - 1) := by
  have hpos : 0 < unit := lt_of_lt_of_le (by norm_num) hunit
  have hsmall : 1 / unit ≤ 1 / (2 ^ 53 - 1) :=
    one_div_le_one_div_of_le (by norm_num) (by linarith)
  have hfactor : roundingFactor = 1 + 1 / (2 ^ 53 - 1) := by norm_num [roundingFactor]
  have hones : magnitude / unit ≤ roundingFactor * quotient + 1 / unit := by
    rw [div_le_iff₀ hpos, add_mul, one_div_mul_cancel hpos.ne', mul_assoc]
    exact hupper
  have hback : quotient ≤ roundingFactor * (magnitude / unit) + 1 / unit := by
    refine le_of_mul_le_mul_right ?_ hpos
    rw [add_mul, one_div_mul_cancel hpos.ne', mul_assoc, div_mul_cancel₀ _ hpos.ne']
    exact hlower
  rw [hfactor] at hones hback
  rw [abs_le]
  constructor <;> linarith

/-- A quotient of at most a hundred is rounded to a double next to it. -/
theorem abs_nearestRank_sub_le {numerator denominator : ℕ} (hpos : 0 < denominator)
    (h : numerator ≤ 100 * denominator) :
    |(units (nearestRank (numerator * unitsPerOne) denominator) : ℚ) / unitsPerOne -
      numerator / denominator| ≤ 102 / (2 ^ 53 - 1) := by
  obtain ⟨hupper, hlower⟩ := @near_nearestRank (numerator * unitsPerOne) denominator hpos
  have hdenominator : (0 : ℚ) < denominator := by exact_mod_cast hpos
  have hquotient : (numerator : ℚ) / denominator ≤ 100 := by
    rw [div_le_iff₀ hdenominator]
    exact_mod_cast h
  rw [Nat.cast_mul, mul_div_right_comm] at hupper hlower
  exact abs_div_sub_le (by exact_mod_cast pow_le_unitsPerOne) hquotient hupper hlower

end Binary64

/-! ### Tenths -/

namespace Decimal

open Binary64

theorem oneDecimal_finite (rank : Fin rankBound) :
    oneDecimal (.finite false rank) = writeTenths (tenths rank) := rfl

/-- The tenths of a magnitude are off by half a tenth at most. -/
theorem abs_tenths_sub_le (rank : ℕ) :
    |(tenths rank : ℚ) - 10 * (units rank / unitsPerOne)| ≤ 1 / 2 := by
  obtain ⟨hupper, hlower⟩ := roundHalfEven_near (units rank * 10) unitsPerOne_pos
  have hpos : (0 : ℚ) < unitsPerOne := by exact_mod_cast unitsPerOne_pos
  have habove : 2 * ((units rank : ℚ) * 10) ≤ (2 * tenths rank + 1) * unitsPerOne := by
    exact_mod_cast hupper
  have hbelow : 2 * (tenths rank : ℚ) * unitsPerOne ≤ 2 * (units rank * 10) + unitsPerOne := by
    exact_mod_cast hlower
  have hvalue : (units rank : ℚ) / unitsPerOne * unitsPerOne = units rank :=
    div_mul_cancel₀ _ hpos.ne'
  rw [abs_le]
  constructor
  · refine le_of_mul_le_mul_right ?_ hpos
    linarith
  · refine le_of_mul_le_mul_right ?_ hpos
    linarith

/-- Tenths that are nearest to a percentage but for a rounding are nearest to it, because a quotient
of a number below `10 ^ 8` is not so close to half way between two tenths. -/
theorem two_mul_abs_le_of_near {tenths part whole : ℕ} {value : ℚ} (hpos : 0 < whole)
    (hwhole : whole < 10 ^ 8) (htenths : |(tenths : ℚ) - 10 * value| ≤ 1 / 2)
    (hvalue : |value - (part * 100 : ℕ) / whole| ≤ 102 / (2 ^ 53 - 1)) :
    2 * |(tenths * whole - 1000 * part : ℤ)| ≤ whole := by
  have hwholePos : (0 : ℚ) < whole := by exact_mod_cast hpos
  have hwholeLt : (whole : ℚ) < 10 ^ 8 := by exact_mod_cast hwhole
  have hexact : (tenths : ℚ) - 10 * ((part * 100 : ℕ) / whole) =
      (tenths * whole - 1000 * part) / whole := by
    push_cast
    field_simp
    ring
  have hoff : |(tenths * whole - 1000 * part : ℚ) / whole| ≤ 1 / 2 + 1020 / (2 ^ 53 - 1) := by
    rw [← hexact]
    rw [abs_le] at hvalue htenths ⊢
    constructor <;> linarith
  rw [abs_div, abs_of_pos hwholePos, div_le_iff₀ hwholePos] at hoff
  have hdrift : 2040 / (2 ^ 53 - 1) * (whole : ℚ) < 1 := by
    calc 2040 / (2 ^ 53 - 1) * (whole : ℚ) ≤ 2040 / (2 ^ 53 - 1) * 10 ^ 8 := by gcongr
      _ < 1 := by norm_num
  have hbelow : 2 * |(tenths * whole - 1000 * part : ℚ)| < whole + 1 := by linarith
  have hinteger : 2 * |(tenths * whole - 1000 * part : ℤ)| < (whole : ℤ) + 1 := by
    exact_mod_cast hbelow
  omega

/-- The tenths of a percentage, of fewer than `10 ^ 8` things, are nearest to the exact one. -/
theorem nearest_tenths {part whole : ℕ} (hpos : 0 < whole) (hwhole : whole < 10 ^ 8)
    (hpart : part ≤ whole) :
    2 * |(tenths (nearestRank (part * 100 * unitsPerOne) whole) * whole - 1000 * part : ℤ)| ≤
      whole :=
  two_mul_abs_le_of_near hpos hwhole (abs_tenths_sub_le _)
    (abs_nearestRank_sub_le hpos (by omega))

end Decimal

/-! ### Counts -/

namespace Report

open Binary64

/-- No more members than events, of which there are fewer than `10 ^ 8`. -/
structure Counted (report : Report) : Prop where
  matched_le : report.matched ≤ report.total
  total_lt : report.total < 10 ^ 8

/-- The reports on fewer than `10 ^ 8` events are counted. -/
theorem counted_ofSegments (schedule : Schedule) (settings : Settings) {events : List Event}
    (h : events.length < 10 ^ 8) (segments : List Segment) :
    ∀ report ∈ (ofSegments schedule settings events segments).value, report.Counted := by
  intro report hreport
  rw [value_ofSegments] at hreport
  obtain ⟨segment, -, rfl⟩ := List.mem_map.mp hreport
  exact ⟨length_membersOf_le settings events segment, h⟩

/-- The tenths are those of a percentage nearest to the share of the members, and none without
events. -/
structure IsNearestTenth (report : Report) (tenths : ℕ) : Prop where
  near : 2 * |(tenths * report.total - 1000 * report.matched : ℤ)| ≤ report.total
  eq_zero : report.total = 0 → tenths = 0

namespace IsNearestTenth

variable {report : Report} {tenths : ℕ}

theorem bounds (h : report.IsNearestTenth tenths) :
    -(report.total : ℤ) ≤ 2 * (tenths * report.total - 1000 * report.matched) ∧
      2 * (tenths * report.total - 1000 * report.matched) ≤ (report.total : ℤ) := by
  rw [← abs_le, abs_mul, abs_two]
  exact h.near

/-- Tenths do not exceed a whole. -/
theorem le_whole (h : report.IsNearestTenth tenths) (hle : report.matched ≤ report.total) :
    tenths ≤ 1000 := by
  rcases Nat.eq_zero_or_pos report.total with hzero | hpos
  · rw [h.eq_zero hzero]
    exact Nat.zero_le _
  · by_contra hgt
    have hmore : (1001 : ℤ) * report.total ≤ tenths * report.total :=
      mul_le_mul_of_nonneg_right (by omega) (Int.natCast_nonneg _)
    have hnear := h.bounds.2
    omega

/-- If all events are members, the tenths are a whole. -/
theorem eq_whole (h : report.IsNearestTenth tenths) (hpos : 0 < report.total)
    (hall : report.matched = report.total) : tenths = 1000 := by
  refine le_antisymm (h.le_whole hall.le) ?_
  by_contra hlt
  have hless : (tenths : ℤ) * report.total ≤ 999 * report.total :=
    mul_le_mul_of_nonneg_right (by omega) (Int.natCast_nonneg _)
  have hnear := h.bounds.1
  omega

/-- If no events are members, there are no tenths. -/
theorem eq_none (h : report.IsNearestTenth tenths) (hnone : report.matched = 0) : tenths = 0 := by
  rcases Nat.eq_zero_or_pos report.total with hzero | hpos
  · exact h.eq_zero hzero
  · by_contra hne
    have hmore : (1 : ℤ) * report.total ≤ tenths * report.total :=
      mul_le_mul_of_nonneg_right (by omega) (Int.natCast_nonneg _)
    have hnear := h.bounds.2
    omega

end IsNearestTenth

/-- The share of some events is the exact quotient, rounded once. -/
theorem Counted.share_eq_ofRatio {report : Report} (h : report.Counted) (hpos : 0 < report.total) :
    report.share = ofRatio false (report.matched * 100) report.total := by
  have hmatched := h.matched_le
  have htotal := h.total_lt
  have hpercent : (ofNat report.matched).mul (ofNat 100) = ofNat (report.matched * 100) :=
    mul_eq_ofRatio (holds_short (by omega)) (holds_short (by decide))
  rw [share, if_neg hpos.ne', hpercent]
  exact div_eq_ofRatio (holds_short (by omega)) (holds_short (by omega)) hpos

/-- The share is written in the tenths nearest to it. -/
theorem Counted.exists_tenths {report : Report} (h : report.Counted) :
    ∃ tenths, Decimal.oneDecimal report.share = Decimal.writeTenths tenths ∧
      report.IsNearestTenth tenths := by
  have hmatched := h.matched_le
  rcases Nat.eq_zero_or_pos report.total with hzero | hpos
  · have htenths : Decimal.tenths 0 = 0 := by
      simp [Decimal.tenths, roundHalfEven, units_zero, unitsPerOne_pos]
    refine ⟨0, ?_, ?_, fun _ ↦ rfl⟩
    · rw [share, if_pos hzero, zero, Decimal.oneDecimal_finite, htenths]
    · have hnone : report.matched = 0 := by omega
      simp [hzero, hnone]
  · have hratio := h.share_eq_ofRatio hpos
    obtain ⟨rank, hrank⟩ := isMagnitude_ofRatio_of_le hpos
      (show report.matched * 100 ≤ 100 * report.total by omega)
    have hnearest : rank.val = nearestRank (report.matched * 100 * unitsPerOne) report.total :=
      rank_eq_nearestRank hrank
    refine ⟨Decimal.tenths rank, ?_, ?_, fun hzero ↦ absurd hzero hpos.ne'⟩
    · rw [hratio, hrank, Decimal.oneDecimal_finite]
    · rw [hnearest]
      exact Decimal.nearest_tenths hpos h.total_lt hmatched

end Report

end Segmentation
