import Mathlib
import Segmentation.Proofs.Decimal.Nearest
import Segmentation.Proofs.Json.Literal

/-!
# Written numbers are literals

Whatever the style, a positive decimal number is written as a number literal that denotes it:
`exists_isLayout` goes through the three positional forms and the form with an exponent. Together
with the round trip of the shortest form, a finite double is always written as a literal whose exact
value rounds to the double (`exists_isWritten`).
-/

set_option autoImplicit false

namespace Segmentation.Decimal

open Binary64
open Json (Literal)

/-- The literal writes a decimal number in a style. A whole number is written out, with a zero
behind the point if the style asks for one; any other keeps its coefficient and its exponent. -/
structure IsLayout (style : Style) (d : Decimal) (literal : Literal) : Prop where
  text_eq : literal.text = layout style d
  decimal_eq : literal.decimal = d ∨ ∃ exponent : ℕ, d.exponent = exponent ∧
    d.leadingExponent < style.limit ∧ literal.decimal = if style.pointed then
      ⟨d.negative, d.coefficient * 10 ^ (exponent + 1), -1⟩
    else ⟨d.negative, d.coefficient * 10 ^ exponent, 0⟩
  exponent_eq : ∀ exponent ∈ literal.exponent,
    digitsValue exponent.digits = d.leadingExponent.natAbs
  pointed : style.pointed = true → literal.fraction ≠ [] ∨ literal.exponent ≠ none

variable {style : Style} {d : Decimal}

/-! ### Digits -/

theorem isDigits_digits (d : Decimal) : IsDigits d.digits := IsDigits.toDigits d.coefficient

theorem digits_ne_nil (d : Decimal) : d.digits ≠ [] := Nat.toDigits_ne_nil

theorem digitsValue_digits (d : Decimal) : digitsValue d.digits = d.coefficient :=
  digitsValue_toDigits d.coefficient

/-- The digits of a positive number do not start with a zero. -/
theorem head?_digits (hpos : 0 < d.coefficient) : d.digits.head? ≠ some '0' := head?_toDigits hpos

/-! ### Forms -/

/-- A number below one has all its digits behind the point. -/
theorem exists_isLayout_fraction (hwhole : d.digits.length + d.exponent ≤ 0)
    (hlow : style.lowest ≤ d.leadingExponent ∧ d.leadingExponent < style.limit) :
    ∃ literal, IsLayout style d literal := by
  refine ⟨{
    negative := d.negative
    whole := ['0']
    fraction := List.replicate (-(d.digits.length + d.exponent)).toNat '0' ++ d.digits
    exponent := none
    whole_ne_nil := by simp
    whole_isDigits := .cons rfl .nil
    whole_of_zero := fun _ ↦ rfl
    fraction_isDigits := (IsDigits.replicate_zero _).append d.isDigits_digits }, ?_, ?_, ?_, ?_⟩
  · have hfraction : List.replicate (-(d.digits.length + d.exponent)).toNat '0' ++ d.digits ≠ [] :=
      List.append_ne_nil_of_right_ne_nil _ d.digits_ne_nil
    rw [Literal.text, Literal.tailText, Literal.fractionText, Literal.exponentText, layout]
    simp only [if_neg hfraction, if_pos hlow, positional, if_pos hwhole, List.append_nil]
    cases d.negative <;> rfl
  · left
    have hvalue : digitsValue (['0'] ++ (List.replicate (-(d.digits.length + d.exponent)).toNat '0'
        ++ d.digits)) = d.coefficient := by
      rw [← List.append_assoc, digitsValue_append, digitsValue_append, digitsValue_replicate_zero,
        digitsValue_digits]
      simp [digitsValue, Nat.ofDigitChars_cons]
    have hexponent : (0 : ℤ) - (List.replicate (-(d.digits.length + d.exponent)).toNat '0'
        ++ d.digits).length = d.exponent := by
      rw [List.length_append, List.length_replicate]
      omega
    simp only [Literal.decimal, Literal.exponentValue, hvalue, hexponent]
  · simp
  · exact fun _ ↦ Or.inl (List.append_ne_nil_of_right_ne_nil _ d.digits_ne_nil)

/-- A number with digits on both sides of the point. -/
theorem exists_isLayout_mixed (hpos : 0 < d.coefficient)
    (hwhole : 0 < d.digits.length + d.exponent) (hexponent : d.exponent < 0)
    (hlow : style.lowest ≤ d.leadingExponent ∧ d.leadingExponent < style.limit) :
    ∃ literal, IsLayout style d literal := by
  have htake : d.digits.take (d.digits.length + d.exponent).toNat ≠ [] := by
    rw [Ne, List.take_eq_nil_iff]
    rintro (hzero | hnil)
    · omega
    · exact d.digits_ne_nil hnil
  have hdrop : d.digits.drop (d.digits.length + d.exponent).toNat ≠ [] := by
    rw [Ne, List.drop_eq_nil_iff]
    omega
  refine ⟨{
    negative := d.negative
    whole := d.digits.take (d.digits.length + d.exponent).toNat
    fraction := d.digits.drop (d.digits.length + d.exponent).toNat
    exponent := none
    whole_ne_nil := htake
    whole_isDigits := d.isDigits_digits.take _
    whole_of_zero := fun hzero ↦ absurd hzero (by
      rw [List.head?_take, if_neg (by omega)]
      exact head?_digits hpos)
    fraction_isDigits := d.isDigits_digits.drop _ }, ?_, ?_, ?_, ?_⟩
  · rw [Literal.text, Literal.tailText, Literal.fractionText, Literal.exponentText, layout]
    simp only [if_neg hdrop, if_pos hlow, positional, if_neg (Int.not_le.mpr hwhole),
      if_pos hexponent, List.append_nil]
    cases d.negative <;> rfl
  · left
    have hlength : (0 : ℤ) - (d.digits.drop (d.digits.length + d.exponent).toNat).length =
        d.exponent := by
      rw [List.length_drop]
      omega
    simp only [Literal.decimal, Literal.exponentValue, List.take_append_drop, digitsValue_digits,
      hlength]
  · simp
  · exact fun _ ↦ Or.inl hdrop

/-- A whole number, with or without a point. -/
theorem exists_isLayout_whole (hpos : 0 < d.coefficient) {exponent : ℕ}
    (hexponent : d.exponent = exponent)
    (hlow : style.lowest ≤ d.leadingExponent ∧ d.leadingExponent < style.limit) :
    ∃ literal, IsLayout style d literal := by
  have hwhole : ¬ (d.digits.length : ℤ) + exponent ≤ 0 := by
    have := List.length_pos_of_ne_nil d.digits_ne_nil
    omega
  refine ⟨{
    negative := d.negative
    whole := d.digits ++ List.replicate exponent '0'
    fraction := if style.pointed then ['0'] else []
    exponent := none
    whole_ne_nil := List.append_ne_nil_of_left_ne_nil d.digits_ne_nil _
    whole_isDigits := d.isDigits_digits.append (.replicate_zero _)
    whole_of_zero := fun hzero ↦ absurd hzero (by
      rw [List.head?_append_of_ne_nil _ d.digits_ne_nil]
      exact head?_digits hpos)
    fraction_isDigits := by
      split
      · exact .cons rfl .nil
      · exact .nil }, ?_, ?_, ?_, ?_⟩
  · rw [Literal.text, Literal.tailText, Literal.fractionText, Literal.exponentText, layout]
    simp only [if_pos hlow, positional, hexponent, if_neg hwhole,
      if_neg (Int.not_lt.mpr (Int.natCast_nonneg exponent)), Int.toNat_natCast]
    cases d.negative <;> cases style.pointed <;> simp
  · right
    refine ⟨exponent, hexponent, hlow.2, ?_⟩
    have hvalue : digitsValue (d.digits ++ List.replicate exponent '0') =
        d.coefficient * 10 ^ exponent := by
      rw [digitsValue_append, digitsValue_replicate_zero, digitsValue_digits,
        List.length_replicate, Nat.add_zero]
    cases style.pointed with
    | true =>
      have hpoint : digitsValue (d.digits ++ List.replicate exponent '0' ++ ['0']) =
          d.coefficient * 10 ^ (exponent + 1) := by
        rw [digitsValue_append, hvalue, pow_succ, ← Nat.mul_assoc]
        rfl
      simp only [Literal.decimal, Literal.exponentValue, if_true, hpoint]
      rfl
    | false =>
      simp only [Literal.decimal, Literal.exponentValue, Bool.false_eq_true, if_false,
        List.append_nil, hvalue]
      rfl
  · simp
  · intro hpointed
    left
    simp [hpointed]

/-- A leading digit, the others behind a point, and an exponent. -/
theorem exists_isLayout_scientific (hpos : 0 < d.coefficient)
    (hhigh : ¬(style.lowest ≤ d.leadingExponent ∧ d.leadingExponent < style.limit)) :
    ∃ literal, IsLayout style d literal := by
  obtain ⟨lead, rest, hdigits⟩ := List.exists_cons_of_ne_nil d.digits_ne_nil
  have hisDigits : IsDigits (lead :: rest) := hdigits ▸ d.isDigits_digits
  have hlead : lead ≠ '0' := by
    have hhead := head?_digits hpos
    rw [hdigits] at hhead
    exact fun heq ↦ hhead (congrArg some heq)
  refine ⟨{
    negative := d.negative
    whole := [lead]
    fraction := rest
    exponent := some {
      marker := 'e'
      sign := some (if d.leadingExponent < 0 then '-' else '+')
      digits := Nat.toDigits 10 d.leadingExponent.natAbs
      marker_eq := Or.inl rfl
      sign_eq := fun c hc ↦ by
        rw [← Option.some.inj hc]
        split
        · exact Or.inr rfl
        · exact Or.inl rfl
      digits_ne_nil := Nat.toDigits_ne_nil
      isDigits := .toDigits _ }
    whole_ne_nil := by simp
    whole_isDigits := .cons hisDigits.head .nil
    whole_of_zero := fun hzero ↦ absurd (Option.some.inj hzero) hlead
    fraction_isDigits := hisDigits.tail }, ?_, ?_, ?_, ?_⟩
  · rw [Literal.text, Literal.tailText, Literal.fractionText, Literal.exponentText, layout]
    simp only [if_neg hhigh, scientific, hdigits, signedDigits, Literal.Exponent.text]
    cases d.negative <;> cases rest <;> simp
  · left
    have hvalue : (if some (if d.leadingExponent < 0 then '-' else '+') = some '-' then
        -(d.leadingExponent.natAbs : ℤ) else d.leadingExponent.natAbs) = d.leadingExponent := by
      by_cases hnegative : d.leadingExponent < 0
      · simp only [hnegative, if_true]
        omega
      · simp only [hnegative, if_false]
        rw [if_neg (by decide)]
        omega
    have hexponent : d.leadingExponent - rest.length = d.exponent := by
      rw [leadingExponent, hdigits, List.length_cons]
      omega
    simp only [Literal.decimal, Literal.exponentValue, Literal.Exponent.value,
      digitsValue_toDigits, hvalue, hexponent, List.singleton_append, ← hdigits,
      digitsValue_digits]
  · intro exponent hexponent
    rw [← Option.some.inj hexponent]
    exact digitsValue_toDigits _
  · exact fun _ ↦ Or.inr (by simp)

/-- A positive decimal number is written as a literal. -/
theorem exists_isLayout (style : Style) (hpos : 0 < d.coefficient) :
    ∃ literal, IsLayout style d literal := by
  by_cases hlow : style.lowest ≤ d.leadingExponent ∧ d.leadingExponent < style.limit
  · by_cases hwhole : d.digits.length + d.exponent ≤ 0
    · exact exists_isLayout_fraction hwhole hlow
    · rcases Int.lt_or_le d.exponent 0 with hnegative | hnonneg
      · exact exists_isLayout_mixed hpos (Int.not_le.mp hwhole) hnegative hlow
      · exact exists_isLayout_whole hpos (Int.toNat_of_nonneg hnonneg).symm hlow
  · exact exists_isLayout_scientific hpos hlow

/-- The literal denotes the number that it writes. -/
theorem IsLayout.sameValue {literal : Literal} (h : IsLayout style d literal) :
    SameValue literal.decimal d := by
  rcases h.decimal_eq with heq | ⟨exponent, hexponent, -, heq⟩
  · rw [heq]
    exact SameValue.refl d
  · rw [heq]
    have hparts : d.exponent.toNat = exponent ∧ (-d.exponent).toNat = 0 := by omega
    cases style.pointed with
    | true =>
      refine ⟨rfl, ?_⟩
      simp only [if_true, numerator, denominator, hparts.1, hparts.2]
      rw [show (-1 : ℤ).toNat = 0 from rfl, show (-(-1 : ℤ)).toNat = 1 from rfl]
      ring
    | false =>
      refine ⟨rfl, ?_⟩
      simp only [Bool.false_eq_true, if_false, numerator, denominator, hparts.1, hparts.2]
      rw [show (0 : ℤ).toNat = 0 from rfl, show (-(0 : ℤ)).toNat = 0 from rfl]
      ring

/-! ### Written doubles -/

/-- Zero does not round to a positive rank. -/
theorem point_pos_of_roundsTo {rank point level : ℕ} (hpos : 0 < rank)
    (h : roundsTo rank (point * gridStep level) = true) : 0 < point := by
  apply Nat.pos_of_ne_zero
  intro hzero
  rw [hzero, Nat.zero_mul] at h
  have hlower := (isNearest_of_roundsTo h).lower
  have hunits : units 0 < units rank := units_strictMono hpos
  rw [units_zero] at hunits
  have hscale : 0 < 2 * resolution := Nat.mul_pos (by decide) resolution_pos
  have hends := Nat.mul_pos (Nat.add_pos_right (units (rank - 1)) hunits) hscale
  rw [Nat.mul_zero] at hlower
  exact absurd hlower (Nat.not_le.mpr hends)

/-- A positive rank has a positive coefficient. -/
theorem coefficient_shortest_pos (tie : Tie) (negative : Bool) {rank : ℕ} (hpos : 0 < rank) :
    0 < (shortest tie negative rank).coefficient :=
  shortest_induction (P := fun d ↦ 0 < d.coefficient) tie negative rank
    fun _ _ hfound ↦ point_pos_of_roundsTo hpos hfound

/-- A positive number has as many digits as the powers of ten below it. -/
theorem pow_length_digits_le (hpos : 0 < d.coefficient) :
    10 ^ (d.digits.length - 1) ≤ d.coefficient := by
  rcases Nat.eq_zero_or_pos (d.digits.length - 1) with hshort | hlong
  · rw [hshort, pow_zero]
    exact hpos
  · apply Nat.not_lt.mp
    intro hlt
    have hle : d.digits.length ≤ d.digits.length - 1 :=
      (Nat.length_toDigits_le_iff (by decide) hlong).mpr hlt
    omega

/-- The leading digits of doubles stand near the point. -/
theorem leadingExponent_shortest (tie : Tie) (negative : Bool) (rank : Fin rankBound)
    (hpos : 0 < rank.val) :
    (shortest tie negative rank).leadingExponent.natAbs ≤ 1074 := by
  refine shortest_induction (P := fun d ↦ d.leadingExponent.natAbs ≤ 1074) tie negative
    rank ?_
  intro point level hfound
  have hpoint := point_pos_of_roundsTo hpos hfound
  have hlength := pow_length_digits_le (d := ⟨negative, point, (level : ℤ) - 1074⟩) hpoint
  have hsome := List.length_pos_of_ne_nil
    (digits_ne_nil ⟨negative, point, (level : ℤ) - 1074⟩)
  rw [leadingExponent]
  simp only at hlength ⊢
  generalize (digits ⟨negative, point, (level : ℤ) - 1074⟩).length = length at hlength hsome ⊢
  have hupper := (isNearest_of_roundsTo hfound).upper
  have hends : units rank + units (rank + 1) ≤ 2 * (2 ^ 1024 * unitsPerOne) := by
    have hnext : units (rank.val + 1) ≤ units rankBound := units_mono rank.isLt
    have hself : units rank.val ≤ units (rank.val + 1) := units_mono (Nat.le_add_right _ _)
    rw [← units_rankBound]
    omega
  have hsides : ∀ bound step scale : ℕ,
      2 * (bound * step) * (2 * scale) = bound * scale * (4 * step) := fun _ _ _ ↦ by ring
  have hvalue : point * 10 ^ level ≤ 2 ^ 1024 * resolution := by
    refine Nat.le_of_mul_le_mul_right ?_ (Nat.mul_pos (show 0 < 4 by decide) unitsPerOne_pos)
    calc point * 10 ^ level * (4 * unitsPerOne) = 2 * (point * gridStep level) := by
          rw [gridStep_eq]
          ring
      _ ≤ (units rank + units (rank + 1)) * (2 * resolution) := hupper
      _ ≤ 2 * (2 ^ 1024 * unitsPerOne) * (2 * resolution) := Nat.mul_le_mul_right _ hends
      _ = 2 ^ 1024 * resolution * (4 * unitsPerOne) := hsides _ _ _
  have hlargest : 2 ^ 1024 ≤ 10 ^ 309 := by decide +kernel
  have hpower : 10 ^ (length - 1 + level) ≤ 10 ^ (309 + 1074) := by
    calc 10 ^ (length - 1 + level) = 10 ^ (length - 1) * 10 ^ level := pow_add _ _ _
      _ ≤ point * 10 ^ level := Nat.mul_le_mul_right _ hlength
      _ ≤ 2 ^ 1024 * resolution := hvalue
      _ ≤ 10 ^ 309 * resolution := Nat.mul_le_mul_right _ hlargest
      _ = 10 ^ (309 + 1074) := pow_mul_resolution 309
  have hexponent := (Nat.pow_le_pow_iff_right (show 1 < 10 by decide)).mp hpower
  omega

/-- The literal is the text of a finite double. -/
structure IsWritten (style : Style) (negative : Bool) (rank : Fin rankBound) (literal : Literal) :
    Prop where
  text_eq : literal.text = write style negative rank
  toBinary64_eq : literal.decimal.toBinary64 = .finite negative rank
  exponent_le : ∀ exponent ∈ literal.exponent, digitsValue exponent.digits ≤ 1074
  pointed : style.pointed = true → literal.fraction ≠ [] ∨ literal.exponent ≠ none

/-- A zero is written as a literal. -/
theorem exists_isWritten_zero (style : Style) (negative : Bool) {rank : Fin rankBound}
    (hzero : rank.val = 0) : ∃ literal, IsWritten style negative rank literal := by
  have hvalue : digitsValue (['0'] ++ if style.pointed then ['0'] else []) = 0 := by
    cases style.pointed <;> rfl
  have hrank : rank = ⟨0, by decide⟩ := Fin.ext hzero
  refine ⟨⟨negative, ['0'], if style.pointed then ['0'] else [], none, by simp, .cons rfl .nil,
    fun _ ↦ rfl, ?_⟩, ?_, ?_, ?_, ?_⟩
  · split
    · exact .cons rfl .nil
    · exact .nil
  · rw [Literal.text, Literal.tailText, Literal.fractionText, Literal.exponentText, write,
      if_pos hzero, zeroLayout]
    cases negative <;> cases style.pointed <;> rfl
  · simp only [Literal.decimal, hvalue, toBinary64, if_true]
    rw [hrank]
    cases negative <;> rfl
  · simp
  · intro hpointed
    left
    simp [hpointed]

/-- A finite double is written as a literal whose exact value rounds to the double. -/
theorem exists_isWritten (style : Style) (negative : Bool) (rank : Fin rankBound) :
    ∃ literal, IsWritten style negative rank literal := by
  by_cases hzero : rank.val = 0
  · exact exists_isWritten_zero style negative hzero
  · have hpos : 0 < rank.val := Nat.pos_of_ne_zero hzero
    obtain ⟨literal, hlayout⟩ := exists_isLayout style
      (coefficient_shortest_pos style.tie negative hpos)
    refine ⟨literal, ?_, ?_, ?_, hlayout.pointed⟩
    · rw [hlayout.text_eq, write, if_neg hzero]
    · rw [toBinary64_congr hlayout.sameValue, toBinary64_shortest]
    · intro exponent hexponent
      rw [hlayout.exponent_eq exponent hexponent]
      exact leadingExponent_shortest style.tie negative rank hpos

end Segmentation.Decimal
