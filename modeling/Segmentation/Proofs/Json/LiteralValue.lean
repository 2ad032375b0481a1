import Mathlib
import Segmentation.Proofs.Json.Literal
import Segmentation.Proofs.Json.Scaling

/-!
# The double of a number literal

Every number that is read is finite and has the sign of its literal (`exists_finite_of_number?`).
It need not be the double nearest to the exact value. `Literal.IsExact` names three kinds of
literals for which it is (`toBinary64_of_isExact`): zeros, whole numbers that fit a machine word,
and literals of at most 53 significant bits whose last digit stands at most 22 places from the
point.
-/

set_option autoImplicit false

namespace Segmentation.Json

open Binary64

/-! ### Digits that fit a machine word -/

/-- The digits that are kept fit a machine word. -/
theorem appendDigits_le {value : ℕ} (hvalue : value ≤ Word.unsignedMax) (word : List Char) :
    (appendDigits value word).1 ≤ Word.unsignedMax := by
  induction word generalizing value with
  | nil => exact hvalue
  | cons c rest ih =>
    simp only [appendDigits]
    by_cases hnext : Word.unsignedMax < value * 10 + (c.toNat - 48)
    · rw [if_pos hnext]
      exact hvalue
    · rw [if_neg hnext]
      exact ih (Nat.not_lt.mp hnext)

namespace Literal

variable {literal : Literal} {n : Number}

theorem wholePart_le (literal : Literal) : literal.wholePart.1 ≤ Word.unsignedMax :=
  appendDigits_le (Nat.zero_le _) literal.whole

theorem digitPart_le (literal : Literal) : literal.digitPart.1 ≤ Word.unsignedMax :=
  appendDigits_le literal.wholePart_le literal.fraction

/-- If all digits fit, none of the integer digits is left over. -/
theorem wholePart_of_fits (h : literal.decimal.coefficient ≤ Word.unsignedMax) :
    literal.wholePart = (digitsValue literal.whole, 0) := by
  have hvalue : 0 * 10 ^ literal.whole.length + digitsValue literal.whole =
      digitsValue literal.whole := by
    rw [Nat.zero_mul, Nat.zero_add]
  have hwhole : digitsValue literal.whole ≤ Word.unsignedMax := by
    refine le_trans ?_ h
    rw [decimal, digitsValue_append]
    exact (Nat.le_mul_of_pos_right _ (pow_pos (by decide) _)).trans (Nat.le_add_right _ _)
  rw [wholePart, appendDigits_eq literal.whole_isDigits (by rw [hvalue]; exact hwhole), hvalue]

theorem digitPart_of_fits (h : literal.decimal.coefficient ≤ Word.unsignedMax) :
    literal.digitPart = (literal.decimal.coefficient, 0) := by
  have hvalue : digitsValue literal.whole * 10 ^ literal.fraction.length +
      digitsValue literal.fraction = literal.decimal.coefficient := by
    rw [decimal, digitsValue_append]
  rw [digitPart, wholePart_of_fits h,
    appendDigits_eq literal.fraction_isDigits (by rw [hvalue]; exact h), hvalue]

theorem shift_of_fits (h : literal.decimal.coefficient ≤ Word.unsignedMax) :
    literal.shift = -(literal.fraction.length : ℤ) := by
  rw [shift, wholePart_of_fits h, digitPart_of_fits h]
  simp

/-- A whole number that fits is kept as it is. -/
theorem number?_of_whole (h : literal.decimal.coefficient ≤ Word.unsignedMax)
    (hfraction : literal.fraction = []) (hexponent : literal.exponent = none) :
    literal.number? = some (wholeNumber literal.negative literal.decimal.coefficient) := by
  have hvalue : digitsValue literal.whole = literal.decimal.coefficient := by
    rw [decimal, hfraction, List.append_nil]
  rw [number?, hexponent]
  simp only [hfraction, wholePart_of_fits h, hvalue, and_self, if_true]

/-- Any other number whose digits fit is its coefficient scaled by its power of ten. -/
theorem number?_of_fits (h : literal.decimal.coefficient ≤ Word.unsignedMax)
    (hmarked : literal.fraction ≠ [] ∨ literal.exponent ≠ none)
    (hexponent : ∀ exponent ∈ literal.exponent, digitsValue exponent.digits ≤ exponentMax) :
    literal.number? = scaledNumber? literal.negative literal.decimal.coefficient
      literal.decimal.exponent := by
  have hdigits : literal.digitPart.1 = literal.decimal.coefficient := by
    rw [digitPart_of_fits h]
  have hvalue : literal.decimal.exponent =
      literal.exponentValue - (literal.fraction.length : ℤ) := rfl
  rw [number?, hdigits, shift_of_fits h, hvalue, exponentValue]
  cases hcase : literal.exponent with
  | none =>
    have hfraction : literal.fraction ≠ [] := hmarked.resolve_right (not_not.mpr hcase)
    simp only [hfraction, false_and, if_false, zero_sub]
  | some exponent =>
    simp only [if_pos (hexponent exponent hcase)]
    congr 1
    ring

/-! ### Numbers that are rounded once -/

/-- The double of a whole number is the nearest one. -/
theorem toBinary64_wholeNumber (negative : Bool) (value : ℕ) :
    (wholeNumber negative value).toBinary64 =
      (⟨negative, value, 0⟩ : Decimal).toBinary64 := by
  have hvalue : (⟨negative, value, 0⟩ : Decimal).toBinary64 = ofRatio negative value 1 := by
    rw [Decimal.toBinary64_eq_ofRatio]
    simp [Decimal.numerator, Decimal.denominator]
  rw [hvalue, wholeNumber]
  cases negative with
  | false =>
    have hsign : decide ((value : ℤ) < 0) = false :=
      decide_eq_false (Int.not_lt.mpr (Int.natCast_nonneg value))
    simp only [Bool.not_false, if_true, Number.toBinary64, ofInt, hsign, Int.natAbs_natCast]
  | true =>
    simp only [Bool.not_true, Bool.false_eq_true, if_false]
    split
    · rename_i hfits
      have hsign : decide (-(value : ℤ) < 0) = true := by
        have := Nat.pos_of_ne_zero hfits.1
        simp only [decide_eq_true_eq]
        omega
      rw [Number.toBinary64, ofInt, hsign, Int.natAbs_neg, Int.natAbs_natCast]
    · exact signed_ofRatio true value 1

/-- Literals that are read without a second rounding. -/
inductive IsExact (literal : Literal) : Prop where
  | zero (h : literal.decimal.coefficient = 0)
  | whole (hfraction : literal.fraction = []) (hexponent : literal.exponent = none)
    (h : literal.decimal.coefficient ≤ Word.unsignedMax)
  | short (h : literal.decimal.coefficient ≤ 2 ^ 53) (hlow : -22 ≤ literal.decimal.exponent)
    (hhigh : literal.decimal.exponent ≤ 22)

theorem IsExact.fits (h : literal.IsExact) : literal.decimal.coefficient ≤ Word.unsignedMax := by
  rcases h with hzero | ⟨-, -, hword⟩ | ⟨hshort, -, -⟩
  · rw [hzero]
    exact Nat.zero_le _
  · exact hword
  · exact hshort.trans (by decide)

/-- A scaled number takes over the value of its significand and its exponent. -/
theorem toBinary64_scaledNumber? {negative : Bool} {significand : ℕ} {exponent : ℤ}
    (hvalue : scaled? significand exponent =
      some (⟨false, significand, exponent⟩ : Decimal).toBinary64)
    (h : scaledNumber? negative significand exponent = some n) :
    n.toBinary64 = (⟨negative, significand, exponent⟩ : Decimal).toBinary64 := by
  rw [scaledNumber?, hvalue, Option.map_some, Option.some.injEq] at h
  rw [← h, Number.toBinary64, Decimal.toBinary64_eq_ofRatio, Decimal.toBinary64_eq_ofRatio,
    signed_ofRatio]
  rfl

/-- A literal with an exponent past all bounds is read only as zero, or because it is as small. -/
theorem exponent_of_number? (h : literal.number? = some n) {exponent : Exponent}
    (hexponent : literal.exponent = some exponent) :
    digitsValue exponent.digits ≤ exponentMax ∨ literal.digitPart.1 = 0 ∨
      exponent.sign = some '-' := by
  by_cases hfits : digitsValue exponent.digits ≤ exponentMax
  · exact Or.inl hfits
  · rw [number?, hexponent] at h
    simp only [if_neg hfits] at h
    split at h
    · exact absurd h (by simp)
    · rename_i hsmall
      rw [not_and_or, not_not, not_not] at hsmall
      exact Or.inr hsmall

/-- The number read from an exact literal is the double nearest to its value. -/
theorem toBinary64_of_isExact (hexact : literal.IsExact) (h : literal.number? = some n) :
    n.toBinary64 = literal.decimal.toBinary64 := by
  have hfits := hexact.fits
  have hparts : literal.decimal =
      ⟨literal.negative, literal.decimal.coefficient, literal.decimal.exponent⟩ := rfl
  by_cases hplain : literal.fraction = [] ∧ literal.exponent = none
  · have hexponent : literal.decimal.exponent = 0 := by
      rw [decimal, exponentValue, hplain.1, hplain.2]
      rfl
    rw [number?_of_whole hfits hplain.1 hplain.2, Option.some.injEq] at h
    rw [← h, toBinary64_wholeNumber, hparts, hexponent]
  · have hmarked : literal.fraction ≠ [] ∨ literal.exponent ≠ none := by
      rwa [not_and_or] at hplain
    by_cases hbound : ∀ exponent ∈ literal.exponent, digitsValue exponent.digits ≤ exponentMax
    · rw [number?_of_fits hfits hmarked hbound] at h
      rw [hparts]
      refine toBinary64_scaledNumber? ?_ h
      rcases hexact with hzero | ⟨hfraction, hexponent, -⟩ | ⟨hshort, hlow, hhigh⟩
      · rw [hzero, scaled?_zero]
        rfl
      · exact absurd ⟨hfraction, hexponent⟩ hplain
      · exact scaled?_of_short hshort hlow hhigh
    · -- The exponent is too large to be kept: only a zero is read exactly then.
      push Not at hbound
      obtain ⟨exponent, hexponent, hlarge⟩ := hbound
      have hexponent : literal.exponent = some exponent := hexponent
      have hzero : literal.decimal.coefficient = 0 := by
        rcases exponent_of_number? h hexponent with hsmall | hzero | hdown
        · exact absurd hsmall (Nat.not_le.mpr hlarge)
        · rwa [digitPart_of_fits hfits] at hzero
        · rcases hexact with hzero | ⟨-, hnone, -⟩ | ⟨-, hlow, -⟩
          · exact hzero
          · exact absurd hexponent (by rw [hnone]; simp)
          · have hvalue : literal.decimal.exponent =
                -(digitsValue exponent.digits : ℤ) - literal.fraction.length := by
              rw [decimal, exponentValue, hexponent]
              simp only [Exponent.value, if_pos hdown]
            rw [hvalue] at hlow
            simp only [exponentMax] at hlarge
            omega
      have hdigits : literal.digitPart.1 = 0 := by rw [digitPart_of_fits hfits, hzero]
      rw [number?, hexponent] at h
      simp only [if_neg (Nat.not_le.mpr hlarge), hdigits, ne_eq, not_true, false_and, if_false,
        Option.some.injEq] at h
      rw [← h, Number.toBinary64, Decimal.toBinary64, if_pos hzero]
      rfl

/-! ### Finite numbers -/

/-- A machine word is turned into a finite double. -/
theorem exists_finite_wholeNumber (negative : Bool) {value : ℕ} (h : value ≤ Word.unsignedMax) :
    ∃ rank : Fin rankBound, (wholeNumber negative value).toBinary64 = .finite negative rank := by
  have hratio : (wholeNumber negative value).toBinary64 =
      (Binary64.ofNat value).signed negative := by
    rw [toBinary64_wholeNumber, Decimal.toBinary64_eq_ofRatio, Binary64.ofNat, signed_ofRatio]
    simp [Decimal.numerator, Decimal.denominator]
  rw [hratio]
  exact (isMagnitude_ofNat h).signed negative

/-- Every number that is read is finite, with the sign that is written. -/
theorem exists_finite_of_number? (h : literal.number? = some n) :
    ∃ rank : Fin rankBound, n.toBinary64 = .finite literal.negative rank := by
  have hscaled : ∀ exponent : ℤ,
      scaledNumber? literal.negative literal.digitPart.1 exponent = some n →
      ∃ rank : Fin rankBound, n.toBinary64 = .finite literal.negative rank := by
    intro exponent hread
    rw [scaledNumber?, Option.map_eq_some_iff] at hread
    obtain ⟨x, hx, rfl⟩ := hread
    exact (isMagnitude_of_scaled? literal.digitPart_le hx).signed literal.negative
  unfold number? at h
  split at h
  · split at h
    · rw [← Option.some.inj h]
      exact exists_finite_wholeNumber literal.negative literal.wholePart_le
    · exact hscaled _ h
  · split at h
    · exact hscaled _ h
    · split at h
      · exact absurd h (by simp)
      · rw [← Option.some.inj h]
        exact IsMagnitude.signed ⟨_, rfl⟩ literal.negative

end Literal

end Segmentation.Json
