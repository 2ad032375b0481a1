import Mathlib
import Segmentation.Proofs.Numeral.Integer
import Segmentation.Value.Comparison

/-!
# A value against an operand

An operand is a text that a condition compares with a value in one of two ways. The equality
conditions cast it to the kind of the value, so wide integers are compared exactly; the ordering
conditions compare doubles, the numeric form of the value and the number that the operand is read
as. The two ways agree as far as they can: a value that equals an operand is not ordered against it
(`unordered_of_strictlyEquals`).

The text form of a value is an operand too. No value is ordered against its own text form
(`unordered_text`), and every value that can equal an operand at all equals its own text form
(`strictlyEquals_cast_text`).
-/

set_option autoImplicit false

namespace Segmentation

/-! ### Words that are no numbers -/

namespace Numeral

open Text

theorem decimal?_cons_eq_none {c : Char} (hdigit : isDigit c = false)
    (hother : c ∉ ['+', '-', '.']) (word : List Char) : decimal? (c :: word) = none := by
  simp only [List.mem_cons, List.not_mem_nil, or_false, not_or] at hother
  obtain ⟨hplus, hminus, hpoint⟩ := hother
  have hcut : cutSign (c :: word) = (false, c :: word) := by
    unfold cutSign
    split
    · rename_i heq
      exact absurd (List.cons.inj heq).1 hminus
    · rename_i heq
      exact absurd (List.cons.inj heq).1 hplus
    · rfl
  by_cases hmarker : (!(c == 'e' || c == 'E')) = true
  · have hmantissa : (c :: word).takeWhile (fun c ↦ !(c == 'e' || c == 'E')) =
        c :: word.takeWhile fun c ↦ !(c == 'e' || c == 'E') := List.takeWhile_cons_of_pos hmarker
    simp only [decimal?, hcut, hmantissa]
    simp [hpoint, hdigit]
  · have hmantissa : (c :: word).takeWhile (fun c ↦ !(c == 'e' || c == 'E')) = [] :=
      List.takeWhile_cons_of_neg hmarker
    simp only [decimal?, hcut, hmantissa]
    rfl

/-- A word that starts like no number is none. -/
theorem readWord_cons_eq_nan {c : Char} (hdigit : isDigit c = false)
    (hother : c ∉ ['+', '-', '.', 'I']) (word : List Char) : readWord (c :: word) = .nan := by
  have hnamed : c :: word ∉ namedWords := by
    simp only [List.mem_cons, List.not_mem_nil, or_false, not_or] at hother
    simp [namedWords, hother]
  have hradix : cutRadix (c :: word) = none := by
    unfold cutRadix
    split
    · rename_i heq
      rw [(List.cons.inj heq).1] at hdigit
      exact absurd hdigit (by decide)
    · rfl
  have hdecimal : decimal? (c :: word) = none :=
    decimal?_cons_eq_none hdigit (fun hmem ↦ hother (by simp at hmem ⊢; tauto)) word
  rw [readWord_of_not_mem_namedWords hnamed, hradix, hdecimal]
  rfl

end Numeral

namespace Value

open Text

/-- Only letters become letters in lower case. -/
theorem toNat_of_lowerCase {c d : Char} (h : lowerCase c = d) (hd : 'a' ≤ d ∧ d ≤ 'z') :
    65 ≤ c.toNat ∧ c.toNat ≤ 122 := by
  unfold lowerCase at h
  split at h
  · rename_i hupper
    exact ⟨hupper.1, le_trans (show c.toNat ≤ 90 from hupper.2) (by decide)⟩
  · have hlow : 97 ≤ d.toNat := hd.1
    have hhigh : d.toNat ≤ 122 := hd.2
    rw [h]
    omega

/-- A truth value, in any letter case, is no number. -/
theorem read_of_boolean? {text : String} {b : Bool} (h : boolean? text = some b) :
    Numeral.read text = .nan := by
  have hfolded : text.toList.map lowerCase ∈ ["true".toList, "false".toList] := by
    simp only [boolean?] at h
    split at h
    · rename_i htrue
      rw [htrue]
      exact List.mem_cons_self
    · split at h
      · rename_i hfalse
        rw [hfalse]
        exact List.mem_cons_of_mem _ List.mem_cons_self
      · exact absurd h (by simp)
  have hletters : ∀ word ∈ ["true".toList, "false".toList], ∀ d ∈ word, 'a' ≤ d ∧ d ≤ 'z' := by
    simp
  have hrange : ∀ c ∈ text.toList, 65 ≤ c.toNat ∧ c.toNat ≤ 122 := fun c hc ↦
    toNat_of_lowerCase rfl (hletters _ hfolded _ (List.mem_map_of_mem hc))
  have hblank : ∀ c ∈ text.toList, isBlank c = false := by
    intro c hc
    have hcode := hrange c hc
    simp only [isBlank, Bool.or_eq_false_iff, Bool.and_eq_false_iff, decide_eq_false_iff_not,
      beq_eq_false_iff_ne]
    omega
  rw [Numeral.read, Numeral.trim_eq_self hblank]
  cases htext : text.toList with
  | nil =>
    rw [htext] at hfolded
    exact absurd hfolded (by decide)
  | cons c word =>
    rw [htext] at hfolded hrange
    have hcode := hrange c List.mem_cons_self
    have hdigit : isDigit c = false := by
      by_contra hdigit
      rw [Bool.not_eq_false, isDigit, Bool.and_eq_true, decide_eq_true_eq,
        decide_eq_true_eq] at hdigit
      have : c.toNat ≤ 57 := hdigit.2
      omega
    refine Numeral.readWord_cons_eq_nan hdigit ?_ word
    intro hmem
    fin_cases hmem
    · exact absurd hcode (by decide)
    · exact absurd hcode (by decide)
    · exact absurd hcode (by decide)
    · simp [lowerCase] at hfolded

/-! ### Values that equal their operands -/

/-- A value that equals an operand is not ordered against it. A radix literal is left out, because
its double need not be the one nearest to the integer. -/
theorem unordered_of_strictlyEquals {value : Value} {operand : String}
    (hradix : ¬Numeral.IsRadixLiteral operand)
    (h : value.strictlyEquals (cast operand value.kind) = true) :
    value.toNumber.Unordered (Numeral.read operand) := by
  cases value with
  | null => exact absurd h Bool.false_ne_true
  | array items => exact absurd h Bool.false_ne_true
  | object members => exact absurd h Bool.false_ne_true
  | boolean b =>
    cases hoperand : boolean? operand with
    | some b' =>
      rw [read_of_boolean? hoperand]
      exact Binary64.unordered_nan _
    | none =>
      rw [kind, cast, hoperand] at h
      exact absurd h Bool.false_ne_true
  | number x => exact Binary64.unordered_of_equals h
  | bigint n =>
    cases hoperand : Numeral.readWide operand with
    | some n' =>
      rw [kind, cast, hoperand] at h
      obtain rfl : n = n' := eq_of_beq h
      exact Numeral.unordered_read_of_readWide hradix hoperand
    | none =>
      rw [kind, cast, hoperand] at h
      exact absurd h Bool.false_ne_true
  | string s =>
    obtain rfl : s = operand := eq_of_beq h
    exact Binary64.unordered_self _

/-! ### Values and their text forms -/

/-- The equality conditions can hold of the value: it is a scalar, but neither null nor NaN. -/
def isComparable : Value → Bool
  | .boolean _ => true
  | .number x => !x.isNaN
  | .bigint _ => true
  | .string _ => true
  | _ => false

/-- No other value equals an operand. -/
theorem strictlyEquals_cast_of_not_isComparable {value : Value} (h : value.isComparable = false)
    (operand : String) : value.strictlyEquals (cast operand value.kind) = false := by
  cases value with
  | null => rfl
  | array items => rfl
  | object members => rfl
  | boolean b => exact absurd h Bool.noConfusion
  | bigint n => exact absurd h Bool.noConfusion
  | string s => exact absurd h Bool.noConfusion
  | number x =>
    cases x with
    | nan => rfl
    | infinite negative => exact absurd h Bool.noConfusion
    | finite negative rank => exact absurd h Bool.noConfusion

/-- A value that can equal an operand equals its own text form. -/
theorem strictlyEquals_cast_text {value : Value} (h : value.isComparable = true) :
    value.strictlyEquals (cast value.text value.kind) = true := by
  cases value with
  | null => exact absurd h Bool.false_ne_true
  | array items => exact absurd h Bool.false_ne_true
  | object members => exact absurd h Bool.false_ne_true
  | boolean b => cases b <;> decide
  | number x =>
    refine Numeral.equals_read_write ?_
    rintro rfl
    exact absurd h Bool.false_ne_true
  | bigint n =>
    rw [text, kind, cast, Numeral.readWide_toString]
    exact beq_self_eq_true n
  | string s => exact beq_self_eq_true s

/-- No value is ordered against its own text form. -/
theorem unordered_text (value : Value) : value.toNumber.Unordered (Numeral.read value.text) := by
  cases value with
  | null =>
    have hword : Numeral.read "null" = .nan := by decide
    rw [text, hword]
    exact Binary64.unordered_nan _
  | boolean b =>
    have hword : Numeral.read (text (.boolean b)) = .nan := by cases b <;> decide
    rw [hword]
    exact Binary64.unordered_nan _
  | number x =>
    rcases eq_or_ne x .nan with rfl | hx
    · exact (Binary64.unordered_nan _).symm
    · exact Binary64.unordered_of_equals (Numeral.equals_read_write hx)
  | bigint n =>
    rw [toNumber, text, Numeral.read_toString]
    exact Binary64.unordered_self _
  | string s => exact Binary64.unordered_self _
  | array items => exact Binary64.unordered_self _
  | object members => exact Binary64.unordered_self _

end Value

end Segmentation
