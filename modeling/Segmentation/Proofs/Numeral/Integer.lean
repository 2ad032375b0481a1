import Mathlib
import Segmentation.Proofs.Binary64.Order
import Segmentation.Proofs.Numeral.RoundTrip

/-!
# Integers as operands

An operand that is an integer can be read in two ways: exactly, as a wide integer, and as the
nearest double. A decimal integer is an optional sign and digits, and on such a word the two
readings agree (`equals_readWord_of_integerWord?`). On a radix literal they need not: its double is
gathered digit by digit and rounded on the way. For every other operand, an integer is never ordered
against the double of its own operand (`unordered_read_of_readWide`). The text of a wide integer is
read back as itself (`readWide_toString`).
-/

set_option autoImplicit false

namespace Segmentation

/-! ### Words of decimal digits -/

namespace Text

theorem digit?_ten (c : Char) :
    digit? 10 c = if isDigit c then some (c.toNat - 48) else none := by
  unfold digit? hexValue? isDigit
  by_cases hdigit : '0' ≤ c ∧ c ≤ '9'
  · have hlow : c.toNat - 48 < 10 := by
      have : c.toNat ≤ 57 := hdigit.2
      omega
    simp [hdigit, hlow]
  · have hother : (decide ('0' ≤ c) && decide (c ≤ '9')) = false := by simpa using hdigit
    simp only [if_neg hdigit, hother]
    by_cases hlower : 'a' ≤ c ∧ c ≤ 'f'
    · have hhigh : 10 ≤ c.toNat - 87 := by
        have : 97 ≤ c.toNat := hlower.1
        omega
      simp [hlower, hhigh]
    · rw [if_neg hlower]
      by_cases hupper : 'A' ≤ c ∧ c ≤ 'F'
      · have hhigh : 10 ≤ c.toNat - 55 := by
          have : 65 ≤ c.toNat := hupper.1
          omega
        simp [hupper, hhigh]
      · simp [hupper]

theorem digits?_ten (word : List Char) :
    digits? 10 word =
      if IsDigits word then some (word.map fun c ↦ c.toNat - 48) else none := by
  induction word with
  | nil => rfl
  | cons c word ih =>
    have hcons : digits? 10 (c :: word) =
        (digit? 10 c).bind fun digit ↦ (digits? 10 word).bind fun digits ↦
          some (digit :: digits) := by
      unfold digits?
      exact List.mapM_cons
    rw [hcons, digit?_ten, ih]
    by_cases hc : isDigit c = true
    · by_cases hword : IsDigits word
      · simp [hc, hword, IsDigits.cons hc hword]
      · have hall : ¬IsDigits (c :: word) := fun h ↦ hword h.tail
        simp [hc, hword, hall]
    · have hall : ¬IsDigits (c :: word) := fun h ↦ hc h.head
      simp [hc, hall]

theorem ofDigits_ten (word : List Char) :
    ofDigits 10 (word.map fun c ↦ c.toNat - 48) = digitsValue word := by
  have hstep : (fun (value : ℕ) (c : Char) ↦ value * 10 + (c.toNat - 48)) =
      fun value c ↦ 10 * value + (c.toNat - '0'.toNat) := by
    funext value c
    rw [Nat.mul_comm]
    rfl
  rw [ofDigits, List.foldl_map, hstep]
  rfl

theorem natural?_ten_eq_some_iff {word : List Char} {n : ℕ} :
    natural? 10 word = some n ↔ word ≠ [] ∧ IsDigits word ∧ digitsValue word = n := by
  unfold natural?
  rw [digits?_ten]
  by_cases hempty : word = []
  · simp [hempty]
  · by_cases hword : IsDigits word
    · simp [hempty, hword, ofDigits_ten]
    · simp [hempty, hword]

end Text

namespace Numeral

open Binary64 Text
open Json (Literal)

/-! ### Decimal integers -/

theorem signedNatural?_eq_some_iff {radix : ℕ} {word : List Char} {n : ℤ} :
    signedNatural? radix word = some n ↔ ∃ m, natural? radix (cutSign word).2 = some m ∧
      n = if (cutSign word).1 then -(m : ℤ) else m := by
  unfold signedNatural?
  obtain ⟨negative, digits⟩ := cutSign word
  cases hdigits : natural? radix digits <;> simp [hdigits, eq_comm]

theorem decimal?_of_digits {word digits : List Char} {negative : Bool}
    (hcut : cutSign word = (negative, digits)) (hne : digits ≠ []) (hdigits : IsDigits digits) :
    decimal? word = some ⟨negative, digitsValue digits, 0⟩ := by
  have hmarker : ∀ c ∈ digits, (!(c == 'e' || c == 'E')) = true := by
    intro c hc
    have hlower : c ≠ 'e' := ne_of_isDigit (hdigits c hc) (by decide)
    have hupper : c ≠ 'E' := ne_of_isDigit (hdigits c hc) (by decide)
    simp [hlower, hupper]
  have hpoint : ∀ c ∈ digits, (c != '.') = true := by
    intro c hc
    simpa using ne_of_isDigit (hdigits c hc) (by decide)
  have hall : digits.all isDigit = true := List.all_eq_true.mpr hdigits
  have hsome : digits.isEmpty = false := by simpa using hne
  have hwhole := List.takeWhile_eq_self_iff.mpr hmarker
  have hrest := List.dropWhile_eq_nil_iff.mpr hmarker
  have hbefore := List.takeWhile_eq_self_iff.mpr hpoint
  have hafter := List.dropWhile_eq_nil_iff.mpr hpoint
  simp only [decimal?, hcut, hwhole, hrest, hbefore, hafter, fraction, exponent?,
    List.append_nil, hall, hsome]
  rfl

/-- A decimal integer is read as a double of the same value. -/
theorem equals_readWord_of_integerWord? {word : List Char} {n : ℤ} (hradix : cutRadix word = none)
    (h : integerWord? word = some n) : (ofInt n).equals (readWord word) = true := by
  unfold integerWord? at h
  split at h
  · rename_i hempty
    obtain rfl := Option.some.inj h
    have hzero : readWord word = ofRatio false 0 1 := by
      rw [readWord, if_pos hempty, ofRatio_zero, signed_false]
    rw [hzero]
    exact equals_ofInt_ofRatio false 0
  · rw [hradix] at h
    obtain ⟨m, hdigits, rfl⟩ := signedNatural?_eq_some_iff.mp h
    obtain ⟨hne, hisDigits, rfl⟩ := natural?_ten_eq_some_iff.mp hdigits
    have hparts : cutSign word = ((cutSign word).1, (cutSign word).2) := rfl
    rw [readWord_of_decimal? hradix (decimal?_of_digits hparts hne hisDigits),
      Decimal.toBinary64_eq_ofRatio]
    simpa [Decimal.numerator, Decimal.denominator] using equals_ofInt_ofRatio _ _

/-- The text of an integer is read as the integer. -/
theorem integerWord?_toString (n : ℤ) : integerWord? (trim (toString n).toList) = some n := by
  obtain ⟨literal, htext, hvalue, hfraction, hexponent⟩ := exists_literal_toString n
  have htail : literal.tailText = [] := by
    rw [Literal.tailText, Literal.fractionText, if_pos hfraction, Literal.exponentText, hexponent]
    rfl
  have hnegative : literal.negative = decide (n < 0) := congrArg Decimal.negative hvalue
  have hmagnitude : digitsValue literal.whole = n.natAbs := by
    have hcoefficient := congrArg Decimal.coefficient hvalue
    rwa [Literal.decimal, hfraction, List.append_nil] at hcoefficient
  have hcut := cutSign_text literal
  rw [htail, List.append_nil, hnegative] at hcut
  have hempty : literal.text.isEmpty = false := by
    simp [Literal.text, literal.whole_ne_nil]
  have hdigits : natural? 10 (cutSign literal.text).2 = some n.natAbs := by
    rw [hcut]
    exact natural?_ten_eq_some_iff.mpr
      ⟨literal.whole_ne_nil, literal.whole_isDigits, hmagnitude⟩
  rw [← htext, trim_eq_self fun c hc ↦ isBlank_of_mem_text hc, integerWord?,
    if_neg (by rw [hempty]; exact Bool.false_ne_true), cutRadix_text]
  refine signedNatural?_eq_some_iff.mpr ⟨_, hdigits, ?_⟩
  rw [hcut]
  by_cases hsign : n < 0
  · simp only [hsign, decide_true, if_true]
    omega
  · simp only [hsign, decide_false, Bool.false_eq_true, if_false]
    omega

/-- A wide integer is read back from its text. -/
theorem readWide_toString (n : WideInteger) : readWide (toString n.val) = some n := by
  rw [readWide, integerWord?_toString]
  exact WideInteger.ofInt?_eq_some_iff.mpr rfl

/-! ### Radix literals -/

/-- The text is a radix prefix and digits of the radix, possibly with white space around. -/
def IsRadixLiteral (text : String) : Prop :=
  ∃ radix digits n, cutRadix (trim text.toList) = some (radix, digits) ∧
    natural? radix digits = some n

theorem readWord_of_cutRadix {word digits : List Char} {radix : ℕ}
    (h : cutRadix word = some (radix, digits)) : readWord word = readRadix radix digits := by
  have hother : word ∉ namedWords := fun hmem ↦
    absurd ((cutRadix_of_mem_namedWords hmem).symm.trans h) (by simp)
  rw [readWord_of_not_mem_namedWords hother, h]

/-- What stands behind a radix prefix is a number only if it consists of digits. -/
theorem readRadix_eq_nan {radix : ℕ} {word : List Char} (h : natural? radix word = none) :
    readRadix radix word = .nan := by
  unfold natural? at h
  unfold readRadix
  split
  · rfl
  · rename_i hempty
    rw [if_neg hempty, Option.map_eq_none_iff] at h
    rw [h]

/-- An integer is not ordered against the double of an operand that it is read from. -/
theorem unordered_read_of_readWide {text : String} {n : WideInteger}
    (hradix : ¬IsRadixLiteral text) (h : readWide text = some n) :
    (ofInt n.val).Unordered (read text) := by
  obtain ⟨m, hm, hn⟩ := Option.bind_eq_some_iff.mp h
  obtain rfl : n.val = m := WideInteger.ofInt?_eq_some_iff.mp hn
  unfold read
  cases hcut : cutRadix (trim text.toList) with
  | none => exact unordered_of_equals (equals_readWord_of_integerWord? hcut hm)
  | some parts =>
    obtain ⟨radix, digits⟩ := parts
    have hnone : natural? radix digits = none := by
      by_contra hsome
      obtain ⟨k, hk⟩ := Option.ne_none_iff_exists'.mp hsome
      exact hradix ⟨radix, digits, k, hcut, hk⟩
    rw [readWord_of_cutRadix hcut, readRadix_eq_nan hnone]
    exact unordered_nan _

end Numeral

end Segmentation
