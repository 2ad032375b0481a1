import Mathlib
import Segmentation.Proofs.Json.LiteralValue
import Segmentation.Proofs.Json.ScalingDrift

/-!
# How far the number reader drifts

The digits of a literal that do not fit a machine word are left over, in the fraction and among the
integer digits alike, which changes the value by `cutFactor` at most (`Literal.within_significand`).
After that the number is scaled. `Literal.near_of_number?` states that the double which is read is
at most seven representable numbers away from the one nearest to the exact value. Only an exponent
past the bound up to which exponents are kept can spoil this, by as many digits in front of the
point.
-/

set_option autoImplicit false

namespace Segmentation

/-- The quotient of a decimal number is its coefficient times its power of ten. -/
theorem Decimal.numerator_div_denominator (d : Decimal) :
    (d.numerator : ℚ) / d.denominator = d.coefficient * 10 ^ d.exponent := by
  obtain ⟨negative, coefficient, exponent⟩ := d
  simp only [numerator, denominator]
  cases exponent with
  | ofNat e => simp
  | negSucc e =>
    have hparts : (Int.negSucc e).toNat = 0 ∧ (-Int.negSucc e).toNat = e + 1 := by
      constructor <;> simp
    rw [hparts.1, hparts.2, zpow_negSucc]
    simp [div_eq_mul_inv]

namespace Json

open Binary64

/-! ### Digits that are left over -/

/-- Two numbers between one multiple of a step and the next are close, if the multiple is a large
one. -/
theorem within_of_step {count step x y : ℕ} (hcount : 10 ^ 18 ≤ count) (hx : count * step ≤ x)
    (hx' : x ≤ (count + 1) * step) (hy : count * step ≤ y) (hy' : y ≤ (count + 1) * step) :
    Within cutFactor x y := by
  have hbound : ((count : ℚ) + 1) * step ≤ cutFactor * (count * step) := by
    have hlarge : (10 : ℚ) ^ 18 ≤ count := by exact_mod_cast hcount
    have hone : (count : ℚ) + 1 ≤ cutFactor * count := by
      unfold cutFactor
      linarith
    calc ((count : ℚ) + 1) * step ≤ cutFactor * count * step :=
          mul_le_mul_of_nonneg_right hone (Nat.cast_nonneg step)
      _ = cutFactor * (count * step) := by ring
  have hstep : ∀ {first second : ℕ}, first ≤ (count + 1) * step → count * step ≤ second →
      (first : ℚ) ≤ cutFactor * second := by
    intro first second hfirst hsecond
    have hfirst : (first : ℚ) ≤ ((count : ℚ) + 1) * step := by exact_mod_cast hfirst
    have hsecond : (count : ℚ) * step ≤ second := by exact_mod_cast hsecond
    exact hfirst.trans (hbound.trans (mul_le_mul_of_nonneg_left hsecond cutFactor_pos.le))
  exact ⟨hstep hx' hy, hstep hy' hx⟩

/-- The digits that are kept are the first ones, and if some are left over, the number is a large
one. -/
theorem exists_appendDigits (value : ℕ) {word : List Char} (hword : IsDigits word) :
    ∃ first second, word = first ++ second ∧ appendDigits value word =
      (value * 10 ^ first.length + digitsValue first, second.length) ∧
      (second ≠ [] → 10 ^ 18 ≤ value * 10 ^ first.length + digitsValue first) := by
  induction word generalizing value with
  | nil => exact ⟨[], [], rfl, by simp [appendDigits, digitsValue_nil], fun h ↦ absurd rfl h⟩
  | cons c word ih =>
    simp only [appendDigits]
    have hc := hword.head
    simp only [Text.isDigit, Bool.and_eq_true, decide_eq_true_eq, Char.le_def] at hc
    have hdigit : c.toNat - 48 ≤ 9 := by
      have : c.toNat ≤ 57 := hc.2
      omega
    by_cases hnext : Word.unsignedMax < value * 10 + (c.toNat - 48)
    · refine ⟨[], c :: word, rfl, ?_, fun _ ↦ ?_⟩
      · rw [if_pos hnext]
        simp [digitsValue_nil]
      · simp only [Word.unsignedMax] at hnext
        simp only [List.length_nil, pow_zero, digitsValue_nil]
        omega
    · rw [if_neg hnext]
      obtain ⟨first, second, hsplit, happend, hlarge⟩ :=
        ih (value * 10 + (c.toNat - 48)) hword.tail
      have hvalue : value * 10 ^ (c :: first).length + digitsValue (c :: first) =
          (value * 10 + (c.toNat - 48)) * 10 ^ first.length + digitsValue first := by
        rw [digitsValue_cons, List.length_cons, pow_succ]
        ring
      refine ⟨c :: first, second, by rw [hsplit, List.cons_append], ?_, ?_⟩
      · rw [hvalue]
        exact happend
      · rw [hvalue]
        exact hlarge

/-- A word of digits after a number stays below the next multiple. -/
theorem digitsValue_append_le (value : ℕ) {word : List Char} (hword : IsDigits word) :
    value * 10 ^ word.length + digitsValue word ≤ (value + 1) * 10 ^ word.length := by
  have hlt := digitsValue_lt hword
  rw [Nat.add_mul, Nat.one_mul]
  omega

/-- If all integer digits are kept, what is left over are the last digits of the fraction. -/
theorem within_of_kept {whole first second : List Char} (hdigits : IsDigits (first ++ second))
    (hlarge : second ≠ [] → 10 ^ 18 ≤ digitsValue whole * 10 ^ first.length + digitsValue first) :
    Within cutFactor
      ((digitsValue whole * 10 ^ first.length + digitsValue first) * 10 ^ second.length : ℕ)
      (digitsValue (whole ++ (first ++ second))) := by
  have hvalue : digitsValue (whole ++ (first ++ second)) =
      (digitsValue whole * 10 ^ first.length + digitsValue first) * 10 ^ second.length +
        digitsValue second := by
    rw [← List.append_assoc, digitsValue_append, digitsValue_append]
  rw [hvalue]
  by_cases hleft : second = []
  · rw [hleft, List.length_nil, digitsValue_nil, pow_zero, Nat.mul_one, Nat.add_zero]
    refine (Within.refl _).mono ?_ (Nat.cast_nonneg _) (Nat.cast_nonneg _)
    unfold cutFactor
    norm_num
  · refine within_of_step (hlarge hleft) le_rfl ?_ (Nat.le_add_right _ _) ?_
    · exact Nat.mul_le_mul_right _ (Nat.le_succ _)
    · exact digitsValue_append_le _ fun c hc ↦ hdigits c (List.mem_append_right first hc)

/-- If integer digits are left over, those that are kept determine the number, whatever fraction
digits are kept behind them. -/
theorem within_of_cut {whole left first second : List Char} (hwhole : IsDigits left)
    (hdigits : IsDigits (first ++ second)) (hlarge : 10 ^ 18 ≤ digitsValue whole) :
    Within cutFactor ((digitsValue whole * 10 ^ first.length + digitsValue first) *
        10 ^ (left.length + second.length) : ℕ)
      (digitsValue (whole ++ (left ++ (first ++ second)))) := by
  have hstep : 10 ^ (left ++ (first ++ second)).length =
      10 ^ first.length * 10 ^ (left.length + second.length) := by
    rw [← pow_add, List.length_append, List.length_append]
    congr 1
    omega
  have hfirst : IsDigits first := fun c hc ↦ hdigits c (List.mem_append_left second hc)
  have hkept := digitsValue_append_le (digitsValue whole) hfirst
  have hlower : digitsValue whole * 10 ^ (left ++ (first ++ second)).length ≤
      (digitsValue whole * 10 ^ first.length + digitsValue first) *
        10 ^ (left.length + second.length) := by
    rw [hstep, ← Nat.mul_assoc]
    exact Nat.mul_le_mul_right _ (Nat.le_add_right _ _)
  have hupper : (digitsValue whole * 10 ^ first.length + digitsValue first) *
        10 ^ (left.length + second.length) ≤
      (digitsValue whole + 1) * 10 ^ (left ++ (first ++ second)).length := by
    rw [hstep, ← Nat.mul_assoc]
    exact Nat.mul_le_mul_right _ hkept
  rw [digitsValue_append]
  exact within_of_step hlarge hlower hupper (Nat.le_add_right _ _)
    (digitsValue_append_le (digitsValue whole) (hwhole.append hdigits))

namespace Literal

/-- The significand and the digits left over give the digits of the literal, up to a factor. -/
theorem within_significand (literal : Literal) :
    Within cutFactor
      (literal.digitPart.1 * 10 ^ (literal.wholePart.2 + literal.digitPart.2) : ℕ)
      literal.decimal.coefficient := by
  obtain ⟨whole, left, hwhole, hwholePart, hwholeLarge⟩ :=
    exists_appendDigits 0 literal.whole_isDigits
  obtain ⟨first, second, hfraction, hdigitPart, hdigitLarge⟩ :=
    exists_appendDigits literal.wholePart.1 literal.fraction_isDigits
  rw [Nat.zero_mul, Nat.zero_add] at hwholePart hwholeLarge
  have hwholePart : literal.wholePart = (digitsValue whole, left.length) := hwholePart
  have hdigitPart : literal.digitPart =
      (literal.wholePart.1 * 10 ^ first.length + digitsValue first, second.length) := hdigitPart
  have hcoefficient : literal.decimal.coefficient =
      digitsValue (whole ++ (left ++ (first ++ second))) := by
    rw [← List.append_assoc, ← hwhole, ← hfraction]
    rfl
  have hdigits : IsDigits (first ++ second) := hfraction ▸ literal.fraction_isDigits
  rw [hdigitPart, hwholePart, hcoefficient]
  rw [hwholePart] at hdigitLarge
  by_cases hcut : left = []
  · rw [hcut, List.nil_append, List.length_nil, Nat.zero_add]
    exact within_of_kept hdigits hdigitLarge
  · have hleft : IsDigits left := fun c hc ↦
      literal.whole_isDigits c (hwhole ▸ List.mem_append_right whole hc)
    exact within_of_cut hleft hdigits (hwholeLarge hcut)

/-- The power of ten that the reader uses makes up for the digits that are left over. -/
theorem shift_eq (literal : Literal) : literal.shift + literal.exponentValue =
    ((literal.wholePart.2 + literal.digitPart.2 : ℕ) : ℤ) + literal.decimal.exponent := by
  obtain ⟨first, second, hfraction, hdigitPart, -⟩ :=
    exists_appendDigits literal.wholePart.1 literal.fraction_isDigits
  have hleft : literal.digitPart.2 = second.length := congrArg Prod.snd hdigitPart
  have hlength : literal.fraction.length = first.length + second.length := by
    rw [hfraction, List.length_append]
  have hexponent : literal.decimal.exponent =
      literal.exponentValue - literal.fraction.length := rfl
  rw [shift, hexponent, hleft, hlength]
  omega

/-- What is scaled is the value of the literal, up to a factor. -/
theorem within_value (literal : Literal) : Within cutFactor
    (literal.digitPart.1 * 10 ^ (literal.shift + literal.exponentValue))
    (literal.decimal.numerator / literal.decimal.denominator : ℚ) := by
  have hten : (10 : ℚ) ≠ 0 := by norm_num
  have hpower : (0 : ℚ) ≤ 10 ^ literal.decimal.exponent := (zpow_pos (by norm_num) _).le
  have hwithin := literal.within_significand.mul_right hpower
  have hvalue : (literal.digitPart.1 * 10 ^ (literal.wholePart.2 + literal.digitPart.2) : ℕ) *
      (10 : ℚ) ^ literal.decimal.exponent =
      literal.digitPart.1 * 10 ^ (literal.shift + literal.exponentValue) := by
    rw [shift_eq, zpow_add₀ hten, zpow_natCast, Nat.cast_mul, Nat.cast_pow, Nat.cast_ofNat,
      mul_assoc]
  rwa [hvalue, ← Decimal.numerator_div_denominator] at hwithin

/-- Only zeros have no significand. -/
theorem coefficient_eq_zero {literal : Literal} (h : literal.digitPart.1 = 0) :
    literal.decimal.coefficient = 0 := by
  have hle := literal.within_significand.2
  rw [h, Nat.zero_mul, Nat.cast_zero, mul_zero] at hle
  exact_mod_cast le_antisymm hle (Nat.cast_nonneg _)

/-- A whole number of which no digit is left over fits a machine word. -/
theorem coefficient_le {literal : Literal} (hfraction : literal.fraction = [])
    (hleft : literal.wholePart.2 = 0) : literal.decimal.coefficient ≤ Word.unsignedMax := by
  obtain ⟨first, second, hwhole, hwholePart, -⟩ := exists_appendDigits 0 literal.whole_isDigits
  have hsecond : second.length = 0 := (congrArg Prod.snd hwholePart).symm.trans hleft
  have hvalue : literal.wholePart.1 = digitsValue first := by
    have hfirst : literal.wholePart.1 = 0 * 10 ^ first.length + digitsValue first :=
      congrArg Prod.fst hwholePart
    rwa [Nat.zero_mul, Nat.zero_add] at hfirst
  have hcoefficient : literal.decimal.coefficient = literal.wholePart.1 := by
    rw [decimal, hfraction, hwhole, List.length_eq_zero_iff.mp hsecond, List.append_nil,
      List.append_nil, hvalue]
  rw [hcoefficient]
  exact literal.wholePart_le

/-- A literal that is not read as a whole number is scaled, if its exponent is kept. -/
theorem number?_of_scaled {literal : Literal}
    (hmarked : ¬(literal.exponent = none ∧ literal.fraction = [] ∧ literal.wholePart.2 = 0))
    (hexponent : ∀ exponent ∈ literal.exponent, digitsValue exponent.digits ≤ exponentMax) :
    literal.number? = scaledNumber? literal.negative literal.digitPart.1
      (literal.shift + literal.exponentValue) := by
  rw [number?, exponentValue]
  cases hcase : literal.exponent with
  | none =>
    have hplain : ¬(literal.fraction = [] ∧ literal.wholePart.2 = 0) :=
      fun hplain ↦ hmarked ⟨hcase, hplain⟩
    simp only [if_neg hplain, add_zero]
  | some exponent => simp only [if_pos (hexponent exponent hcase)]

/-- A number that was scaled is close to the double nearest to the literal. -/
theorem near_of_scaledNumber? {literal : Literal} {n : Number}
    (hsignificand : literal.digitPart.1 ≠ 0) (h : scaledNumber? literal.negative
      literal.digitPart.1 (literal.shift + literal.exponentValue) = some n) :
    Near 7 n.toBinary64 literal.decimal.toBinary64 := by
  rw [scaledNumber?, Option.map_eq_some_iff] at h
  obtain ⟨x, hx, rfl⟩ := h
  obtain ⟨rank, rfl, hnear⟩ := near_of_scaled? (Nat.pos_of_ne_zero hsignificand)
    literal.digitPart_le hx literal.decimal.denominator_pos literal.within_value
  have hsigned : (Binary64.finite false rank).signed literal.negative =
      .finite literal.negative rank := by
    cases literal.negative <;> rfl
  rw [Decimal.toBinary64_eq_ofRatio, Number.toBinary64, hsigned]
  exact near_ofRank literal.negative hnear

/-- A literal whose exponent is past all bounds, and negative, is next to zero. -/
theorem toBinary64_of_far {literal : Literal} {exponent : Exponent}
    (hexponent : literal.exponent = some exponent) (hdown : exponent.sign = some '-')
    (hlarge : exponentMax < digitsValue exponent.digits)
    (hlength : literal.whole.length + 400 ≤ exponentMax) :
    literal.decimal.toBinary64 = zero.signed literal.negative := by
  have hexponent : literal.decimal.exponent =
      -((digitsValue exponent.digits + literal.fraction.length : ℕ) : ℤ) := by
    rw [decimal, exponentValue, hexponent]
    simp only [Exponent.value, if_pos hdown]
    omega
  have hcoefficient : literal.decimal.coefficient <
      10 ^ (literal.whole.length + literal.fraction.length) := by
    rw [← List.length_append]
    exact digitsValue_lt (literal.whole_isDigits.append literal.fraction_isDigits)
  have hunit : 2 * unitsPerOne ≤ 10 ^ 380 :=
    (Nat.mul_le_mul_right unitsPerOne (show 2 ≤ 2 ^ 66 by decide)).trans unitsPerOne_le
  rw [Decimal.toBinary64_eq_ofRatio]
  refine Decimal.ofRatio_of_small _ literal.decimal.denominator_pos ?_
  rw [Decimal.numerator, Decimal.denominator, hexponent, Int.neg_neg, Int.toNat_natCast,
    Int.toNat_neg_natCast, pow_zero, Nat.mul_one]
  calc 2 * (literal.decimal.coefficient * unitsPerOne)
      = literal.decimal.coefficient * (2 * unitsPerOne) := by ring
    _ ≤ 10 ^ (literal.whole.length + literal.fraction.length) * 10 ^ 380 :=
      Nat.mul_le_mul hcoefficient.le hunit
    _ = 10 ^ (literal.whole.length + literal.fraction.length + 380) := (pow_add _ _ _).symm
    _ ≤ 10 ^ (digitsValue exponent.digits + literal.fraction.length) :=
      pow_le_pow_right₀ (by decide) (by omega)

/-- With an exponent that is kept, the number read from a literal is at most seven representable
numbers away from the double nearest to the value of the literal. -/
theorem near_of_fits {literal : Literal} {n : Number} (h : literal.number? = some n)
    (hexponent : ∀ exponent ∈ literal.exponent, digitsValue exponent.digits ≤ exponentMax) :
    Near 7 n.toBinary64 literal.decimal.toBinary64 := by
  have hexact : literal.IsExact → Near 7 n.toBinary64 literal.decimal.toBinary64 := by
    intro hexact
    rw [toBinary64_of_isExact hexact h]
    exact near_self (Decimal.toBinary64_ne_nan _) (by decide)
  by_cases hsignificand : literal.digitPart.1 = 0
  · exact hexact (.zero (coefficient_eq_zero hsignificand))
  by_cases hplain : literal.exponent = none ∧ literal.fraction = [] ∧ literal.wholePart.2 = 0
  · obtain ⟨hnone, hfraction, hleft⟩ := hplain
    exact hexact (.whole hfraction hnone (coefficient_le hfraction hleft))
  · rw [number?_of_scaled hplain hexponent] at h
    exact near_of_scaledNumber? hsignificand h

/-- The same holds of all other literals, unless their integer digits are as many. -/
theorem near_of_number? {literal : Literal} {n : Number} (h : literal.number? = some n)
    (hlength : literal.whole.length + 400 ≤ exponentMax) :
    Near 7 n.toBinary64 literal.decimal.toBinary64 := by
  by_cases hfits : ∀ exponent ∈ literal.exponent, digitsValue exponent.digits ≤ exponentMax
  · exact near_of_fits h hfits
  · push Not at hfits
    obtain ⟨exponent, hexponent, hlarge⟩ := hfits
    have hexponent : literal.exponent = some exponent := hexponent
    by_cases hsignificand : literal.digitPart.1 = 0
    · rw [toBinary64_of_isExact (.zero (coefficient_eq_zero hsignificand)) h]
      exact near_self (Decimal.toBinary64_ne_nan _) (by decide)
    · have hdown : exponent.sign = some '-' := by
        rcases exponent_of_number? h hexponent with hsmall | hzero | hdown
        · exact absurd hsmall (Nat.not_le.mpr hlarge)
        · exact absurd hzero hsignificand
        · exact hdown
      have hfar := toBinary64_of_far hexponent hdown hlarge hlength
      have hsign : ¬(literal.digitPart.1 ≠ 0 ∧ exponent.sign ≠ some '-') := fun hup ↦ hup.2 hdown
      rw [number?, hexponent] at h
      simp only [if_neg (Nat.not_le.mpr hlarge), if_neg hsign] at h
      rw [← Option.some.inj h, Number.toBinary64, hfar]
      refine near_self ?_ (by decide)
      rw [← hfar]
      exact Decimal.toBinary64_ne_nan _

end Literal

end Json

end Segmentation
