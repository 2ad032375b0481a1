import Mathlib
import Segmentation.Proofs.Decimal.Magnitude
import Segmentation.Proofs.Numeral.RoundTrip

/-!
# The printed form of a double

The printed form is a faithful encoding (`write_faithful`): what is read back is the double itself,
with the one zero for both, so two doubles are printed alike exactly if they are equal or both NaN.
A finite double other than zero is printed as a number literal, with an exponent exactly below the
double of `1e-6` and from the double of `1e21` on.

The two limits are compared as doubles, while the printer looks at the leading digit of the shortest
form. `Decimal.le_leadingExponent_shortest_iff` relates the two, once the shortest forms of the
limits themselves are known.
-/

set_option autoImplicit false

namespace Segmentation.Numeral

open Binary64 Decimal
open Json (Literal)
open Json.Literal (Exponent)

/-! ### Equal numbers -/

/-- A double without the sign of a zero is positive zero or the double. -/
theorem unsignedZero_eq (x : Binary64) : unsignedZero x = if x.isZero then .zero else x := by
  cases x with
  | nan => rfl
  | infinite negative => rfl
  | finite negative rank =>
    by_cases hzero : rank.val = 0
    · obtain rfl : rank = ⟨0, by decide⟩ := Fin.ext hzero
      cases negative <;> rfl
    · simp [unsignedZero, isZero, hzero]

theorem unsignedZero_eq_nan_iff {x : Binary64} : unsignedZero x = .nan ↔ x = .nan := by
  cases x <;> simp [unsignedZero]

/-- The sign of a zero is not printed. -/
theorem write_unsignedZero (x : Binary64) : write (unsignedZero x) = write x := by
  cases x with
  | nan => rfl
  | infinite negative => rfl
  | finite negative rank => simp [unsignedZero, write]

/-- But for the sign of a zero, a double is known by its place. -/
theorem unsignedZero_of_place? {x : Binary64} {place : ℤ} (h : x.place? = some place) :
    unsignedZero x = ofRank (decide (place < 0)) place.natAbs := by
  cases x with
  | nan => exact absurd h (by simp [place?])
  | infinite negative =>
    obtain rfl := Option.some.inj h
    cases negative <;> rfl
  | finite negative rank =>
    obtain rfl := Option.some.inj h
    have hnatAbs : (if negative then -(rank.val : ℤ) else rank.val).natAbs = rank.val := by
      cases negative <;> simp
    have hsign : decide ((if negative then -(rank.val : ℤ) else rank.val) < 0) =
        (negative && rank.val != 0) := by
      cases negative with
      | false => simp
      | true => rcases Nat.eq_zero_or_pos rank.val with hzero | hpos <;> simp [*, Nat.ne_of_gt]
    rw [hnatAbs, hsign, ofRank, dif_pos rank.isLt]
    rfl

/-- Two doubles are printed alike exactly if they are equal or both NaN. -/
theorem write_eq_write_iff {x y : Binary64} :
    write x = write y ↔ x.equals y = true ∨ x = .nan ∧ y = .nan := by
  constructor
  · intro hsame
    have hread : unsignedZero x = unsignedZero y := by rw [← read_write, hsame, read_write]
    by_cases hx : x = .nan
    · refine Or.inr ⟨hx, unsignedZero_eq_nan_iff.mp ?_⟩
      rw [← hread, unsignedZero_eq_nan_iff.mpr hx]
    · have hself := equals_self_of_ne_nan hx
      unfold equals at hself ⊢
      rw [← place?_unsignedZero y, ← hread, place?_unsignedZero]
      exact Or.inl hself
  · rintro (hequals | ⟨rfl, rfl⟩)
    · obtain ⟨place, hx, hy⟩ := equals_iff.mp hequals
      rw [← write_unsignedZero x, unsignedZero_of_place? hx, ← unsignedZero_of_place? hy,
        write_unsignedZero]
    · rfl

/-! ### Exponents -/

/-- The digits of the double nearest to `1e-6` start at that power of ten. -/
theorem le_leadingExponent_lowest (negative : Bool) :
    style.lowest ≤ (shortest style.tie negative (powerRank style.lowest)).leadingExponent := by
  cases negative <;> decide +kernel

/-- The digits of the double nearest to `1e21` start at that power of ten. -/
theorem le_leadingExponent_limit (negative : Bool) :
    style.limit ≤ (shortest style.tie negative (powerRank style.limit)).leadingExponent := by
  cases negative <;> decide +kernel

/-- The shortest form of a double is positional exactly between the two limits. -/
theorem positional_iff (negative : Bool) {rank : Fin rankBound} (hpos : 0 < rank.val) :
    (style.lowest ≤ (shortest style.tie negative rank).leadingExponent ∧
        (shortest style.tie negative rank).leadingExponent < style.limit) ↔
      ¬ ((Binary64.finite false rank).less (power style.lowest).toBinary64 = true ∨
        (Binary64.finite false rank).less (power style.limit).toBinary64 = false) := by
  have hlowest := le_leadingExponent_shortest_iff hpos (le_leadingExponent_lowest negative)
  have hlimit := le_leadingExponent_shortest_iff hpos (le_leadingExponent_limit negative)
  rw [hlowest, ← Int.not_le, hlimit, not_or, less_power_iff, Bool.not_eq_false, less_power_iff,
    Nat.not_lt, Nat.not_le]

/-- An exponent that is written as a marker, a sign and digits has these parts. -/
theorem exponent_of_exponentText {literal : Literal} {n : ℤ}
    (h : literal.exponentText = 'e' :: signedDigits n) :
    literal.exponent ≠ none ∧ ∀ exponent ∈ literal.exponent,
      exponent.marker = 'e' ∧ exponent.sign ≠ none := by
  unfold Literal.exponentText at h
  cases hexponent : literal.exponent with
  | none =>
    rw [hexponent] at h
    exact absurd h (by simp)
  | some exponent =>
    rw [hexponent] at h
    refine ⟨by simp, fun part hpart ↦ ?_⟩
    obtain rfl : exponent = part := Option.some.inj hpart
    obtain ⟨hmarker, hrest⟩ := List.cons.inj h
    refine ⟨hmarker, fun hnone ↦ ?_⟩
    -- Without a sign the first digit would be one.
    rw [hnone, signedDigits] at hrest
    have hdigits : IsDigits ((if n < 0 then '-' else '+') :: Nat.toDigits 10 n.natAbs) :=
      hrest ▸ exponent.isDigits
    have hhead := hdigits.head
    split at hhead <;> exact absurd hhead (by decide)

/-- A finite double other than zero is printed as a literal, with an exponent exactly out of the
positional range. -/
theorem exists_literal_write (negative : Bool) {rank : Fin rankBound} (hpos : 0 < rank.val) :
    ∃ literal : Literal, (write (.finite negative rank)).toList = literal.text ∧
      literal.negative = negative ∧
      (literal.exponent ≠ none ↔
        (Binary64.finite false rank).less (power style.lowest).toBinary64 = true ∨
          (Binary64.finite false rank).less (power style.limit).toBinary64 = false) ∧
      ∀ exponent ∈ literal.exponent, exponent.marker = 'e' ∧ exponent.sign ≠ none := by
  obtain ⟨literal, hlayout⟩ := exists_isLayout style
    (coefficient_shortest_pos style.tie negative hpos)
  have hsign : (negative && rank.val != 0) = negative := by simp [hpos.ne']
  have htext : (write (.finite negative rank)).toList = literal.text := by
    rw [hlayout.text_eq, write, String.toList_ofList, hsign, Decimal.write, if_neg hpos.ne']
  have hexponent := hlayout.exponentText_eq
  refine ⟨literal, htext, hlayout.sameValue.1, ?_⟩
  by_cases hrange : style.lowest ≤ (shortest style.tie negative rank).leadingExponent ∧
      (shortest style.tie negative rank).leadingExponent < style.limit
  · rw [if_pos hrange] at hexponent
    have hnone : literal.exponent = none := by
      unfold Literal.exponentText at hexponent
      cases hcase : literal.exponent with
      | none => rfl
      | some exponent => simp [hcase, Exponent.text] at hexponent
    refine ⟨iff_of_false (fun h ↦ h hnone) ((positional_iff negative hpos).mp hrange), ?_⟩
    rw [hnone]
    simp
  · rw [if_neg hrange] at hexponent
    obtain ⟨hsome, hparts⟩ := exponent_of_exponentText hexponent
    exact ⟨iff_of_true hsome (not_not.mp (mt (positional_iff negative hpos).mpr hrange)), hparts⟩

/-! ### The encoding -/

/-- Printing loses nothing of a double but the sign of a zero, and so tells apart exactly the
numbers that differ. A finite double other than zero is printed as an optional minus, digits, an
optional fraction, and an exponent with its sign exactly if the magnitude is below `1e-6` or not
below `1e21`. -/
theorem write_faithful (x y : Binary64) :
    read (write x) = (if x.isZero then .zero else x) ∧
      (write x = write y ↔ x.equals y = true ∨ x = .nan ∧ y = .nan) ∧
      ∀ negative rank, x = .finite negative rank → x.isZero = false →
        ∃ literal : Literal, (write x).toList = literal.text ∧ literal.negative = negative ∧
          (literal.exponent ≠ none ↔
            x.abs.less (Decimal.toBinary64 ⟨false, 1, -6⟩) = true ∨
              x.abs.less (Decimal.toBinary64 ⟨false, 1, 21⟩) = false) ∧
          ∀ exponent ∈ literal.exponent, exponent.marker = 'e' ∧ exponent.sign ≠ none := by
  refine ⟨by rw [read_write, unsignedZero_eq], write_eq_write_iff, ?_⟩
  rintro negative rank rfl hzero
  have hpos : 0 < rank.val := Nat.pos_of_ne_zero (of_decide_eq_false hzero)
  exact exists_literal_write negative hpos

/-- The smallest positive double has an exponent, and is not printed as zero is. -/
theorem write_faithful_smallest :
    (Binary64.finite true ⟨1, by decide⟩).isZero = false ∧
      read (write (.finite true ⟨1, by decide⟩)) = .finite true ⟨1, by decide⟩ ∧
      write (.finite true ⟨1, by decide⟩) ≠ write .zero ∧
      ∃ literal : Literal, (write (.finite true ⟨1, by decide⟩)).toList = literal.text ∧
        literal.exponent ≠ none := by
  have hzero : (Binary64.finite true ⟨1, by decide⟩).isZero = false := by decide
  obtain ⟨hread, hsame, hprinted⟩ := write_faithful (.finite true ⟨1, by decide⟩) .zero
  obtain ⟨literal, htext, -, hexponent, -⟩ := hprinted true ⟨1, by decide⟩ rfl hzero
  refine ⟨hzero, hread, fun h ↦ absurd (hsame.mp h) (by decide), literal, htext,
    hexponent.mpr (Or.inl ?_)⟩
  decide +kernel

end Segmentation.Numeral
