import Mathlib
import Segmentation.Json.Writer
import Segmentation.Proofs.Decimal.Whole
import Segmentation.Proofs.Json.Document
import Segmentation.Proofs.Json.LiteralDrift
import Segmentation.Proofs.Numeral.Literal

/-!
# Doubles read back from their JSON texts

A finite double is written as its shortest form, which is a number literal, and the number reader
does not find the nearest double of every literal. `reread` is the double that it finds.
`exists_rereads` states that it finds one: reading back never leaves the range of the doubles,
although it may drift, because a number that drifts out of range has to be one of the seven largest,
and those are read back (`isSome_numberLiteral_largest`). What is found is at most seven
representable numbers away, and it is the number itself if the written literal is an exact one.
-/

set_option autoImplicit false

namespace Segmentation.Json

open Binary64

/-! ### Numbers out of range -/

/-- Rounding to infinity is rounding to a rank past the finite ones. -/
theorem rankBound_le_of_infinite {negative sign : Bool} {numerator denominator : ℕ}
    (h : ofUnits negative numerator denominator = .infinite sign) :
    rankBound ≤ nearestRank numerator denominator := by
  unfold ofUnits ofRank at h
  split at h
  · exact absurd h (by simp)
  · rename_i hlarge
    exact Nat.not_lt.mp hlarge

/-- What is at least `2 ^ 1024` is rounded past the finite ranks. -/
theorem rankBound_le_of_large {numerator denominator : ℕ} (hpos : 0 < denominator)
    (h : 2 ^ 1024 * denominator ≤ numerator) :
    rankBound ≤ nearestRank (numerator * unitsPerOne) denominator := by
  rw [← nearestRank_units rankBound, units_rankBound]
  refine nearestRank_mono Nat.one_pos hpos ?_
  calc 2 ^ 1024 * unitsPerOne * denominator = 2 ^ 1024 * denominator * unitsPerOne :=
        Nat.mul_right_comm _ _ _
    _ ≤ numerator * unitsPerOne * 1 := by
        rw [Nat.mul_one]
        exact Nat.mul_le_mul_right _ h

/-- A significand times a power of ten past `1e308`, up to a factor. -/
theorem large_of_within {significand exponent numerator denominator : ℕ}
    (hsignificand : 0 < significand) (hexponent : 308 < exponent) (hpos : 0 < denominator)
    (h : (significand * 10 ^ exponent : ℚ) ≤ cutFactor * (numerator / denominator)) :
    2 ^ 1024 * denominator ≤ numerator := by
  have hdenominator : (0 : ℚ) < denominator := Nat.cast_pos.mpr hpos
  have hnumerator : (0 : ℚ) ≤ numerator := Nat.cast_nonneg _
  have hfactor : cutFactor ≤ 2 := by
    unfold cutFactor
    norm_num
  have hbound : (significand : ℚ) * 10 ^ exponent * denominator ≤ 2 * numerator := by
    calc (significand : ℚ) * 10 ^ exponent * denominator
        ≤ cutFactor * (numerator / denominator) * denominator :=
          mul_le_mul_of_nonneg_right h hdenominator.le
      _ = cutFactor * numerator := by field_simp
      _ ≤ 2 * numerator := mul_le_mul_of_nonneg_right hfactor hnumerator
  have hnatural : significand * 10 ^ exponent * denominator ≤ 2 * numerator := by
    exact_mod_cast hbound
  have hpower : 2 * 2 ^ 1024 ≤ 10 ^ 309 := by decide +kernel
  have hlarge : 2 * 2 ^ 1024 ≤ significand * 10 ^ exponent :=
    (hpower.trans (pow_le_pow_right₀ (by decide) hexponent)).trans
      (Nat.le_mul_of_pos_left _ hsignificand)
  refine Nat.le_of_mul_le_mul_left ?_ (show 0 < 2 by decide)
  calc 2 * (2 ^ 1024 * denominator) = 2 * 2 ^ 1024 * denominator := (Nat.mul_assoc _ _ _).symm
    _ ≤ significand * 10 ^ exponent * denominator := Nat.mul_le_mul_right _ hlarge
    _ ≤ 2 * numerator := hnatural

/-- A significand that cannot be scaled stands for a number out of range, or next to it. -/
theorem rankBound_le_of_scaled? {significand : ℕ} (hsignificand : 0 < significand)
    (hword : significand ≤ Word.unsignedMax) {exponent : ℤ}
    (h : scaled? significand exponent = none) {numerator denominator : ℕ}
    (hpos : 0 < denominator)
    (hvalue : Within cutFactor (significand * 10 ^ exponent) (numerator / denominator : ℚ)) :
    rankBound ≤ nearestRank (numerator * unitsPerOne) denominator + 7 := by
  cases exponent with
  | negSucc e => exact absurd h (by simp [scaled?])
  | ofNat e =>
    obtain ⟨first, hfirst, hstands⟩ := exists_stands hsignificand (isMagnitude_ofNat hword)
    have hnonzero : (ofNat significand).isZero = false := by
      rw [hfirst]
      exact decide_eq_false hstands.ne_zero
    by_cases hexponent : 308 < e
    · refine (rankBound_le_of_large hpos ?_).trans (Nat.le_add_right _ 7)
      exact large_of_within hsignificand hexponent hpos hvalue.1
    · obtain ⟨power, hpower, hpowerStands⟩ :=
        exists_stands_powerOfTen (Nat.not_lt.mp hexponent)
      have hvalue : Within cutFactor (significand * (10 ^ e : ℕ))
          (numerator / denominator : ℚ) := by
        rw [Nat.cast_pow, Nat.cast_ofNat]
        exact hvalue
      have hnear := near_product hstands hpowerStands hpos hvalue
      simp only [scaled?, hnonzero, Bool.false_eq_true, if_false, if_neg hexponent] at h
      split at h
      · rename_i sign hinfinite
        rw [hfirst, hpower] at hinfinite
        have hlarge := rankBound_le_of_infinite hinfinite
        rw [abs_sub_le_iff] at hnear
        omega
      · exact absurd h (by simp)

/-- A literal without a number is out of range, or next to it. -/
theorem Literal.rankBound_le_of_number? {literal : Literal} (h : literal.number? = none)
    (hexponent : ∀ exponent ∈ literal.exponent, digitsValue exponent.digits ≤ exponentMax) :
    rankBound ≤
      nearestRank (literal.decimal.numerator * unitsPerOne) literal.decimal.denominator + 7 := by
  by_cases hplain : literal.exponent = none ∧ literal.fraction = [] ∧ literal.wholePart.2 = 0
  · obtain ⟨hnone, hfraction, hleft⟩ := hplain
    rw [number?_of_whole (coefficient_le hfraction hleft) hfraction hnone] at h
    exact absurd h (by simp)
  · rw [number?_of_scaled hplain hexponent, scaledNumber?, Option.map_eq_none_iff] at h
    have hsignificand : 0 < literal.digitPart.1 := by
      apply Nat.pos_of_ne_zero
      intro hzero
      rw [hzero, scaled?_zero] at h
      exact absurd h (by simp)
    exact rankBound_le_of_scaled? hsignificand literal.digitPart_le h
      literal.decimal.denominator_pos literal.within_value

/-! ### Written doubles -/

/-- The seven largest doubles are read back from their texts. -/
theorem isSome_numberLiteral_largest : ∀ negative : Bool, ∀ below < 7,
    (numberLiteral (Decimal.write style negative (rankBound - 1 - below))).toOption.isSome =
      true := by
  decide +kernel

/-- The double that is read back from the text of a double. -/
def reread (x : Binary64) : Binary64 :=
  match numberLiteral (writeDouble x) with
  | .ok (n, _) => n.toBinary64
  | .error _ => .nan

/-- The literal is the text of a double, and is read as the reread double. -/
structure Rereads (x : Binary64) (literal : Literal) : Prop where
  text_eq : literal.text = writeDouble x
  number?_eq : literal.number? = some (.double (reread x))
  toBinary64_eq : literal.decimal.toBinary64 = x
  exponent_le : ∀ exponent ∈ literal.exponent, digitsValue exponent.digits ≤ exponentMax

/-- A written literal has a number. -/
theorem exists_number_of_isWritten {negative : Bool} {rank : Fin rankBound} {literal : Literal}
    (h : Decimal.IsWritten style negative rank literal)
    (hexponent : ∀ exponent ∈ literal.exponent, digitsValue exponent.digits ≤ exponentMax) :
    ∃ n, literal.number? = some n := by
  cases hnumber : literal.number? with
  | some n => exact ⟨n, rfl⟩
  | none =>
    have hlarge := Literal.rankBound_le_of_number? hnumber hexponent
    have hvalue := h.toBinary64_eq
    rw [Decimal.toBinary64_eq_ofRatio, ofRatio] at hvalue
    rw [← rank_eq_nearestRank hvalue] at hlarge
    have hrank := rank.isLt
    have hread := isSome_numberLiteral_largest negative (rankBound - 1 - rank.val) (by omega)
    have hbelow : rankBound - 1 - (rankBound - 1 - rank.val) = rank.val := by omega
    have hfault := numberLiteral_text literal (separated_nil.ends literal)
    rw [hnumber, List.append_nil, h.text_eq] at hfault
    obtain ⟨fault, hfault⟩ := hfault
    rw [hbelow, hfault] at hread
    exact absurd hread Bool.false_ne_true

/-- Every finite double is read back from its text as some double. -/
theorem exists_rereads (negative : Bool) (rank : Fin rankBound) :
    ∃ literal, Rereads (.finite negative rank) literal := by
  obtain ⟨literal, hwritten⟩ := Decimal.exists_isWritten style negative rank
  have hexponent : ∀ exponent ∈ literal.exponent,
      digitsValue exponent.digits ≤ exponentMax := fun exponent hsome ↦
    (hwritten.exponent_le exponent hsome).trans (by decide)
  obtain ⟨n, hnumber⟩ := exists_number_of_isWritten hwritten hexponent
  have hmarked : ¬(literal.exponent = none ∧ literal.fraction = [] ∧ literal.wholePart.2 = 0) := by
    rintro ⟨hnone, hfraction, -⟩
    rcases hwritten.pointed rfl with hpoint | hpoint
    · exact hpoint hfraction
    · exact hpoint hnone
  have hread := numberLiteral_text literal (separated_nil.ends literal)
  rw [hnumber, List.append_nil, hwritten.text_eq] at hread
  have hreread : reread (.finite negative rank) = n.toBinary64 := by
    have hread : numberLiteral (writeDouble (.finite negative rank)) = .ok (n, []) := hread
    rw [reread, hread]
  have hscaled := hnumber
  rw [Literal.number?_of_scaled hmarked hexponent, Literal.scaledNumber?,
    Option.map_eq_some_iff] at hscaled
  obtain ⟨x, -, rfl⟩ := hscaled
  exact ⟨literal, hwritten.text_eq, by rw [hnumber, hreread]; rfl, hwritten.toBinary64_eq,
    hexponent⟩

/-- What is read back is finite. -/
theorem exists_finite_reread (negative : Bool) (rank : Fin rankBound) :
    ∃ next : Fin rankBound, reread (.finite negative rank) = .finite negative next := by
  obtain ⟨literal, h⟩ := exists_rereads negative rank
  obtain ⟨next, hnext⟩ := Literal.exists_finite_of_number? h.number?_eq
  have hsign : literal.negative = negative := by
    have hvalue := h.toBinary64_eq
    rw [Decimal.toBinary64_eq_ofRatio, ofRatio, ofUnits, ofRank] at hvalue
    split at hvalue
    · rw [finite.injEq] at hvalue
      exact hvalue.1
    · exact absurd hvalue (by simp)
  rw [hsign] at hnext
  exact ⟨next, hnext⟩

/-- What is read back is at most seven representable numbers away. -/
theorem near_reread (negative : Bool) (rank : Fin rankBound) :
    Near 7 (reread (.finite negative rank)) (.finite negative rank) := by
  obtain ⟨literal, h⟩ := exists_rereads negative rank
  have hnear := Literal.near_of_fits h.number?_eq h.exponent_le
  rwa [h.toBinary64_eq] at hnear

/-- A double whose text is an exact literal is read back as it is. -/
theorem reread_of_isExact {negative : Bool} {rank : Fin rankBound} {literal : Literal}
    (htext : literal.text = writeDouble (.finite negative rank)) (hexact : literal.IsExact) :
    reread (.finite negative rank) = .finite negative rank := by
  obtain ⟨written, h⟩ := exists_rereads negative rank
  have hsame : literal.decimal.toBinary64 = written.decimal.toBinary64 := by
    rw [← Numeral.read_text, ← Numeral.read_text, htext, h.text_eq]
  have hread := numberLiteral_text literal (separated_nil.ends literal)
  have hwritten := numberLiteral_text written (separated_nil.ends written)
  rw [List.append_nil, htext] at hread
  rw [List.append_nil, h.text_eq, h.number?_eq] at hwritten
  have hnumber : literal.number? = some (.double (reread (.finite negative rank))) := by
    cases hcase : literal.number? with
    | none =>
      rw [hcase] at hread
      obtain ⟨fault, hfault⟩ := hread
      exact absurd (hwritten.symm.trans hfault) (by simp)
    | some n =>
      rw [hcase] at hread
      have heq := Except.ok.inj (hread.symm.trans hwritten)
      rw [(Prod.mk.inj heq).1]
  have hvalue := Literal.toBinary64_of_isExact hexact hnumber
  rw [hsame, h.toBinary64_eq] at hvalue
  exact hvalue

/-- Whole numbers of at most 53 bits are doubles. -/
theorem exists_ofInt {n : ℤ} (h : n.natAbs ≤ 2 ^ 53) : ∃ rank : Fin rankBound,
    ofInt n = .finite (decide (n < 0)) rank ∧ units rank = n.natAbs * unitsPerOne := by
  obtain ⟨rank, hrank, hunits⟩ := holds_short h
  refine ⟨rank, ?_, hunits⟩
  rw [ofInt, ← signed_ofRatio]
  show (ofNat n.natAbs).signed _ = _
  rw [hrank]
  cases decide (n < 0) <;> rfl

/-- The text of a whole number is an exact literal, also with the zero behind the point. -/
theorem isExact_of_isLayout {d : Decimal} {literal : Literal}
    (hlayout : Decimal.IsLayout style d literal) (hpos : 0 < d.coefficient) {exponent m : ℕ}
    (hexponent : d.exponent = exponent) (hvalue : d.coefficient * 10 ^ exponent = m)
    (h : m * 10 ≤ 2 ^ 53) : literal.IsExact := by
  rcases hlayout.decimal_eq with hsame | ⟨other, hother, -, hpoint⟩
  · have hle : d.coefficient ≤ m := by
      rw [← hvalue]
      exact Nat.le_mul_of_pos_right _ (Nat.pow_pos (by decide))
    have hpower : exponent < 22 := by
      refine (Nat.pow_lt_pow_iff_right (show 1 < 10 by decide)).mp ?_
      calc 10 ^ exponent ≤ d.coefficient * 10 ^ exponent := Nat.le_mul_of_pos_left _ hpos
        _ = m := hvalue
        _ < 10 ^ 22 := by omega
    apply Literal.IsExact.short
    all_goals
      rw [hsame]
      omega
  · have hpoint : literal.decimal = ⟨d.negative, d.coefficient * 10 ^ (exponent + 1), -1⟩ := by
      have heq : other = exponent := by omega
      rw [hpoint, heq]
      rfl
    rw [pow_succ, ← Nat.mul_assoc, hvalue] at hpoint
    apply Literal.IsExact.short
    · rw [hpoint]
      exact h
    · rw [hpoint]
      show (-22 : ℤ) ≤ -1
      decide
    · rw [hpoint]
      show (-1 : ℤ) ≤ 22
      decide

/-- Whole numbers are read back as they are, as long as their tenfold has 53 bits. -/
theorem reread_ofInt {n : ℤ} (h : n.natAbs * 10 ≤ 2 ^ 53) : reread (.ofInt n) = .ofInt n := by
  rcases Nat.eq_zero_or_pos n.natAbs with hzero | hpos
  · rw [Int.natAbs_eq_zero.mp hzero]
    decide +kernel
  · obtain ⟨rank, hfinite, hunits⟩ := exists_ofInt (show n.natAbs ≤ 2 ^ 53 by omega)
    have hrank : rank.val ≠ 0 :=
      ne_zero_of_units (hunits ▸ Nat.mul_pos hpos unitsPerOne_pos)
    obtain ⟨exponent, hexponent, hvalue⟩ := Decimal.exists_shortest_whole style.tie
      (decide (n < 0)) hpos (show n.natAbs < 2 ^ 53 by omega) hunits
    have hcoefficient := Decimal.coefficient_shortest_pos style.tie (decide (n < 0))
      (Nat.pos_of_ne_zero hrank)
    obtain ⟨literal, hlayout⟩ := Decimal.exists_isLayout style hcoefficient
    have htext : literal.text = writeDouble (.finite (decide (n < 0)) rank) := by
      rw [hlayout.text_eq, writeDouble, Decimal.write, if_neg hrank]
    rw [hfinite]
    exact reread_of_isExact htext (isExact_of_isLayout hlayout hcoefficient hexponent hvalue h)

end Segmentation.Json
