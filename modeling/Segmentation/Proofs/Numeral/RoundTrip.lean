import Mathlib
import Segmentation.Proofs.Binary64.Order
import Segmentation.Proofs.Decimal.Layout
import Segmentation.Proofs.Numeral.Literal

/-!
# Numbers read back from their texts

A double is read back from its shortest form, except that a negative zero loses its sign
(`read_write`), and an integer is read back as the double nearest to it (`read_toString`). Both
texts are number literals, so both statements come down to the exact values of literals.
-/

set_option autoImplicit false

namespace Segmentation.Numeral

open Binary64
open Json (Literal)

/-! ### Integers -/

/-- The text of an integer is a literal without fraction and exponent. -/
theorem exists_literal_toString (n : ℤ) : ∃ literal : Literal,
    literal.text = (toString n).toList ∧ literal.decimal = ⟨decide (n < 0), n.natAbs, 0⟩ ∧
      literal.fraction = [] ∧ literal.exponent = none := by
  have hzero : (Nat.toDigits 10 n.natAbs).head? = some '0' → Nat.toDigits 10 n.natAbs = ['0'] := by
    intro hhead
    rcases Nat.eq_zero_or_pos n.natAbs with hnone | hpos
    · rw [hnone]
      rfl
    · exact absurd hhead (head?_toDigits hpos)
  refine ⟨⟨decide (n < 0), Nat.toDigits 10 n.natAbs, [], none, Nat.toDigits_ne_nil, .toDigits _,
    hzero, .nil⟩, ?_, ?_, rfl, rfl⟩
  · rw [Int.toString_eq_repr, Int.repr_eq_if]
    by_cases hnegative : n < 0
    · have hnatAbs : (-n).toNat = n.natAbs := by omega
      rw [if_neg (Int.not_le.mpr hnegative), hnatAbs]
      simp [Literal.text, Literal.tailText, Literal.fractionText, Literal.exponentText, hnegative]
    · have hnatAbs : n.toNat = n.natAbs := by omega
      rw [if_pos (Int.not_lt.mp hnegative), hnatAbs]
      simp [Literal.text, Literal.tailText, Literal.fractionText, Literal.exponentText, hnegative]
  · simp [Literal.decimal, Literal.exponentValue, digitsValue_toDigits]

/-- The text of an integer is read as the double nearest to the integer. -/
theorem read_toString (n : ℤ) : read (toString n) = .ofInt n := by
  obtain ⟨literal, htext, hvalue, -, -⟩ := exists_literal_toString n
  have hread := read_text literal
  rw [htext, String.ofList_toList] at hread
  rw [hread, hvalue, Decimal.toBinary64_eq_ofRatio]
  simp [Decimal.numerator, Decimal.denominator, ofInt]

/-! ### Doubles -/

/-- A double without the sign of a zero. -/
def unsignedZero : Binary64 → Binary64
  | .finite negative rank => .finite (negative && rank.val != 0) rank
  | x => x

/-- Dropping the sign of a zero does not move a number. -/
theorem place?_unsignedZero (x : Binary64) : (unsignedZero x).place? = x.place? := by
  cases x with
  | nan => rfl
  | infinite negative => rfl
  | finite negative rank =>
    by_cases hzero : rank.val = 0
    · simp [unsignedZero, place?, hzero]
    · simp [unsignedZero, place?, hzero]

/-- A double is read back from its shortest form, but for the sign of a zero. -/
theorem read_write (x : Binary64) : read (write x) = unsignedZero x := by
  cases x with
  | nan => decide
  | infinite negative => cases negative <;> decide
  | finite negative rank =>
    obtain ⟨literal, hwritten⟩ :=
      Decimal.exists_isWritten style (negative && rank.val != 0) rank
    have hread := read_text literal
    rw [hwritten.text_eq, hwritten.toBinary64_eq] at hread
    exact hread

/-- A number equals what is read back from its shortest form. -/
theorem equals_read_write {x : Binary64} (h : x ≠ .nan) : x.equals (read (write x)) = true := by
  have hself := equals_self_of_ne_nan h
  unfold equals at hself ⊢
  rw [read_write, place?_unsignedZero]
  exact hself

end Segmentation.Numeral
