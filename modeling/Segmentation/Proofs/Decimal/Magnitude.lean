import Mathlib
import Segmentation.Proofs.Binary64.Order
import Segmentation.Proofs.Decimal.Layout
import Segmentation.Proofs.Numeral.Grammar

/-!
# Leading digits and magnitudes

The exponent of the leading digit compares a decimal number with the powers of ten
(`le_leadingExponent_iff`). For the shortest form of a double the comparison can be made between
doubles: from the double nearest to a power of ten on, the leading digits stand at that power or
above (`le_leadingExponent_shortest_iff`). The shortest form may lie below the double, so the double
nearest to the power itself has to be looked at.

Which of its two forms a number is written in is seen from the text, as only one of them has an
exponent behind its digits (`dropWhile_layout`).
-/

set_option autoImplicit false

namespace Segmentation.Decimal

open Binary64 Numeral Text
open Json (Literal)

variable {style : Style} {d : Decimal} {k : ℤ}

/-! ### Powers of ten -/

/-- A power of ten as a decimal number. -/
def power (k : ℤ) : Decimal := ⟨false, 1, k⟩

/-- The rank of the double nearest to a power of ten. -/
def powerRank (k : ℤ) : ℕ := nearestRank ((power k).numerator * unitsPerOne) (power k).denominator

theorem toBinary64_power (k : ℤ) : (power k).toBinary64 = ofRank false (powerRank k) :=
  toBinary64_eq_ofRatio (power k)

/-- A decimal number is below the power of ten past its digits. -/
theorem coefficient_lt (d : Decimal) : d.coefficient < 10 ^ d.digits.length := by
  rw [← digitsValue_digits d]
  exact digitsValue_lt d.isDigits_digits

/-- The leading digit stands at a power of ten or above exactly if the number reaches it. -/
theorem le_leadingExponent_iff (hpos : 0 < d.coefficient) : k ≤ d.leadingExponent ↔
    (power k).numerator * d.denominator ≤ d.numerator * (power k).denominator := by
  have hlength := List.length_pos_of_ne_nil d.digits_ne_nil
  have hleft : (power k).numerator * d.denominator =
      10 ^ (k.toNat + (-d.exponent).toNat) := by
    simp only [numerator, denominator, power, Nat.one_mul, ← pow_add]
  have hright : d.numerator * (power k).denominator =
      d.coefficient * 10 ^ (d.exponent.toNat + (-k).toNat) := by
    simp only [numerator, denominator, power, Nat.mul_assoc, ← pow_add]
  rw [hleft, hright, leadingExponent]
  constructor
  · intro hle
    have hexponents : k.toNat + (-d.exponent).toNat ≤
        d.digits.length - 1 + (d.exponent.toNat + (-k).toNat) := by omega
    calc 10 ^ (k.toNat + (-d.exponent).toNat)
        ≤ 10 ^ (d.digits.length - 1 + (d.exponent.toNat + (-k).toNat)) :=
          Nat.pow_le_pow_right (by decide) hexponents
      _ = 10 ^ (d.digits.length - 1) * 10 ^ (d.exponent.toNat + (-k).toNat) := pow_add _ _ _
      _ ≤ d.coefficient * 10 ^ (d.exponent.toNat + (-k).toNat) :=
          Nat.mul_le_mul_right _ (pow_length_digits_le hpos)
  · intro hle
    by_contra hlow
    have hexponents : d.digits.length + (d.exponent.toNat + (-k).toNat) ≤
        k.toNat + (-d.exponent).toNat := by omega
    refine absurd hle (Nat.not_le.mpr ?_)
    calc d.coefficient * 10 ^ (d.exponent.toNat + (-k).toNat)
        < 10 ^ d.digits.length * 10 ^ (d.exponent.toNat + (-k).toNat) :=
          Nat.mul_lt_mul_of_pos_right d.coefficient_lt (pow_pos (by decide) _)
      _ = 10 ^ (d.digits.length + (d.exponent.toNat + (-k).toNat)) := (pow_add _ _ _).symm
      _ ≤ 10 ^ (k.toNat + (-d.exponent).toNat) := Nat.pow_le_pow_right (by decide) hexponents

/-! ### Shortest forms -/

variable {tie : Tie} {negative : Bool} {rank : ℕ}

/-- The shortest form of a rank rounds to the rank. -/
theorem nearestRank_shortest (tie : Tie) (negative : Bool) (rank : ℕ) :
    nearestRank ((shortest tie negative rank).numerator * unitsPerOne)
      (shortest tie negative rank).denominator = rank :=
  shortest_induction (P := fun d ↦ nearestRank (d.numerator * unitsPerOne) d.denominator = rank)
    tie negative rank fun _ _ hfound ↦ nearestRank_of_roundsTo negative hfound

/-- If the shortest form of the double nearest to a power of ten reaches the power, then so do the
shortest forms of exactly the doubles from there on. -/
theorem le_leadingExponent_shortest_iff (hpos : 0 < rank)
    (hpower : k ≤ (shortest tie negative (powerRank k)).leadingExponent) :
    k ≤ (shortest tie negative rank).leadingExponent ↔ powerRank k ≤ rank := by
  have hreaches := le_leadingExponent_iff (k := k)
    (coefficient_shortest_pos tie negative hpos)
  have hrank := nearestRank_shortest tie negative rank
  generalize hd : shortest tie negative rank = d at hreaches hrank ⊢
  have hscaled : ∀ a b : ℕ, a * unitsPerOne * b = a * b * unitsPerOne :=
    fun a b ↦ Nat.mul_right_comm a unitsPerOne b
  constructor
  · intro hle
    rw [← hrank]
    refine nearestRank_mono (denominator_pos _) d.denominator_pos ?_
    rw [hscaled, hscaled]
    exact Nat.mul_le_mul_right _ (hreaches.mp hle)
  · intro hle
    by_contra hlow
    have hbelow : rank ≤ powerRank k := by
      rw [← hrank]
      refine nearestRank_mono d.denominator_pos (denominator_pos _) ?_
      rw [hscaled, hscaled]
      exact Nat.mul_le_mul_right _ (Nat.le_of_not_le fun h ↦ hlow (hreaches.mpr h))
    obtain rfl : powerRank k = rank := Nat.le_antisymm hle hbelow
    rw [hd] at hpower
    exact hlow hpower

/-- A magnitude below the double nearest to a power of ten has a smaller rank. -/
theorem less_power_iff {x : Fin rankBound} :
    (Binary64.finite false x).less (power k).toBinary64 = true ↔ x.val < powerRank k := by
  rw [toBinary64_power, ofRank, less_iff]
  have hx : x.val < rankBound := x.isLt
  split
  · simp [place?]
  · simp only [place?, Bool.false_eq_true, if_false, Option.some.injEq]
    constructor
    · intro _
      omega
    · intro _
      exact ⟨_, _, rfl, rfl, by exact_mod_cast hx⟩

/-! ### The two forms -/

/-- The text consists of digits and points. -/
def IsPointed (text : List Char) : Prop := ∀ c ∈ text, isDigit c = true ∨ c = '.'

namespace IsPointed

theorem append {first second : List Char} (hfirst : IsPointed first)
    (hsecond : IsPointed second) : IsPointed (first ++ second) := fun c hc ↦
  (List.mem_append.mp hc).elim (hfirst c) (hsecond c)

theorem ofDigits {word : List Char} (h : IsDigits word) : IsPointed word :=
  fun c hc ↦ Or.inl (h c hc)

theorem cons_point {text : List Char} (h : IsPointed text) : IsPointed ('.' :: text) :=
  List.forall_mem_cons.mpr ⟨Or.inr rfl, h⟩

theorem isMarker {text : List Char} (h : IsPointed text) : ∀ c ∈ text, isMarker c = false := by
  intro c hc
  rcases h c hc with hdigit | rfl
  · exact isMarker_of_isDigit hdigit
  · rfl

end IsPointed

/-- The positional form consists of digits and a point. -/
theorem isPointed_positional (pointed : Bool) (d : Decimal) : IsPointed (d.positional pointed) := by
  have hdigits := d.isDigits_digits
  have hzeros : ∀ count, IsPointed (List.replicate count '0') :=
    fun count ↦ .ofDigits (.replicate_zero count)
  unfold positional
  simp only
  split
  · exact (IsPointed.ofDigits (.cons rfl .nil)).append
      ((hzeros _).append (.ofDigits hdigits)).cons_point
  · split
    · exact (IsPointed.ofDigits (hdigits.take _)).append
        (IsPointed.ofDigits (hdigits.drop _)).cons_point
    · refine ((IsPointed.ofDigits hdigits).append (hzeros _)).append ?_
      split
      · exact (IsPointed.ofDigits (.cons rfl .nil)).cons_point
      · exact .ofDigits .nil

/-- The form with an exponent has digits and a point before it. -/
theorem exists_scientific (d : Decimal) : ∃ mantissa, IsPointed mantissa ∧
    d.scientific = mantissa ++ 'e' :: signedDigits d.leadingExponent := by
  refine ⟨_, ?_, rfl⟩
  have hdigits := d.isDigits_digits
  split
  · rename_i lead next rest heq
    rw [heq] at hdigits
    exact (IsPointed.ofDigits (.cons hdigits.head .nil)).append
      (IsPointed.ofDigits hdigits.tail).cons_point
  · exact .ofDigits hdigits

/-- In a laid out number an exponent is found exactly if the leading digit is out of the positional
range. -/
theorem dropWhile_layout (style : Style) (d : Decimal) :
    (layout style d).dropWhile (!isMarker ·) =
      if style.lowest ≤ d.leadingExponent ∧ d.leadingExponent < style.limit then []
      else 'e' :: signedDigits d.leadingExponent := by
  have hsign : ∀ body : List Char, (if d.negative then '-' :: body else body).dropWhile
      (!isMarker ·) = body.dropWhile (!isMarker ·) := by
    intro body
    cases d.negative <;> rfl
  rw [layout, hsign]
  split
  · rw [List.dropWhile_eq_nil_iff]
    intro c hc
    rw [(isPointed_positional style.pointed d).isMarker c hc, Bool.not_false]
  · obtain ⟨mantissa, hmantissa, hscientific⟩ := exists_scientific d
    rw [hscientific]
    exact dropWhile_word (fun c hc ↦ by rw [hmantissa.isMarker c hc, Bool.not_false])
      fun c hc ↦ by
        obtain rfl : 'e' = c := Option.some.inj hc
        rfl

/-- In a literal the exponent is found. -/
theorem dropWhile_text (literal : Literal) :
    literal.text.dropWhile (!isMarker ·) = literal.exponentText := by
  have hparts : literal.text =
      ((if literal.negative then ['-'] else []) ++ (literal.whole ++ literal.fractionText)) ++
        literal.exponentText := by
    rw [Literal.text, Literal.tailText, List.append_assoc, List.append_assoc]
  rw [hparts]
  refine dropWhile_word (fun c hc ↦ ?_) fun c hc ↦ ?_
  · rw [Bool.not_eq_true']
    rcases List.mem_append.mp hc with hsign | hc
    · split at hsign
      · rw [List.mem_singleton.mp hsign]
        rfl
      · exact absurd hsign List.not_mem_nil
    · have hpointed : IsPointed (literal.whole ++ literal.fractionText) :=
        (IsPointed.ofDigits literal.whole_isDigits).append fun _ ↦ literal.mem_fractionText
      exact hpointed.isMarker c hc
  · unfold Literal.exponentText at hc
    split at hc
    · exact absurd hc (by simp)
    · rename_i exponent _
      obtain rfl : exponent.marker = c := Option.some.inj hc
      rw [isMarker_iff.mpr exponent.marker_eq, Bool.not_true]

/-- A number that is laid out as a literal has an exponent exactly if the leading digit is out of
the positional range, and the exponent has its sign. -/
theorem IsLayout.exponentText_eq {literal : Literal} (h : IsLayout style d literal) :
    literal.exponentText =
      if style.lowest ≤ d.leadingExponent ∧ d.leadingExponent < style.limit then []
      else 'e' :: signedDigits d.leadingExponent := by
  rw [← dropWhile_text, h.text_eq, dropWhile_layout]

end Segmentation.Decimal
