import Mathlib
import Segmentation.Decimal.Basic
import Segmentation.Json.Scalar
import Segmentation.Text.Character

/-!
# Words of decimal digits

`IsDigits` says that a word consists of decimal digits. Such a word ends where something else
follows (`takeWhile_word`, `dropWhile_word`), its value is read digit by digit
(`digitsValue_append`), and the word of a number has the number as its value and no superfluous
zero in front (`digitsValue_toDigits`, `head?_toDigits`). `appendDigits_eq` describes the reader
that stops before a machine word overflows: without an overflow it finds the value of the whole
word.
-/

set_option autoImplicit false

namespace Segmentation

open Text

/-- The word consists of decimal digits. -/
def IsDigits (word : List Char) : Prop := ∀ c ∈ word, isDigit c = true

instance (word : List Char) : Decidable (IsDigits word) :=
  List.decidableBAll (fun c ↦ isDigit c = true) word

namespace IsDigits

theorem nil : IsDigits [] := fun _ hc ↦ absurd hc List.not_mem_nil

theorem cons {c : Char} {word : List Char} (hc : isDigit c = true) (h : IsDigits word) :
    IsDigits (c :: word) := fun d hd ↦ by
  rcases List.mem_cons.mp hd with rfl | hd
  · exact hc
  · exact h d hd

theorem append {first second : List Char} (hfirst : IsDigits first) (hsecond : IsDigits second) :
    IsDigits (first ++ second) := fun c hc ↦
  (List.mem_append.mp hc).elim (hfirst c) (hsecond c)

theorem head {c : Char} {word : List Char} (h : IsDigits (c :: word)) : isDigit c = true :=
  h c List.mem_cons_self

theorem tail {c : Char} {word : List Char} (h : IsDigits (c :: word)) : IsDigits word :=
  fun d hd ↦ h d (List.mem_cons_of_mem c hd)

theorem take {word : List Char} (h : IsDigits word) (count : ℕ) : IsDigits (word.take count) :=
  fun c hc ↦ h c (List.mem_of_mem_take hc)

theorem drop {word : List Char} (h : IsDigits word) (count : ℕ) : IsDigits (word.drop count) :=
  fun c hc ↦ h c (List.mem_of_mem_drop hc)

theorem replicate_zero (count : ℕ) : IsDigits (List.replicate count '0') := fun c hc ↦ by
  rw [List.eq_of_mem_replicate hc]
  decide

theorem takeWhile (text : List Char) : IsDigits (text.takeWhile isDigit) :=
  fun _ hc ↦ List.mem_takeWhile_imp hc

theorem toDigits (n : ℕ) : IsDigits (Nat.toDigits 10 n) := fun c hc ↦ by
  have hdigit := Nat.isDigit_of_mem_toDigits (by decide) (by decide) hc
  simp only [Char.isDigit, Bool.and_eq_true, decide_eq_true_eq] at hdigit
  simp only [isDigit, Bool.and_eq_true, decide_eq_true_eq]
  exact hdigit

end IsDigits

/-- The text does not start with a digit. -/
def NoDigit (text : List Char) : Prop := ∀ c ∈ text.head?, isDigit c = false

/-- What is left of a text after its first characters of one kind starts with another kind. -/
theorem of_mem_head?_dropWhile {p : Char → Bool} {text : List Char} {c : Char}
    (h : c ∈ (text.dropWhile p).head?) : p c = false := by
  have hhead := List.head?_dropWhile_not p text
  rw [Option.mem_def] at h
  rw [h] at hhead
  simpa using hhead

theorem noDigit_dropWhile (text : List Char) : NoDigit (text.dropWhile isDigit) :=
  fun _ ↦ of_mem_head?_dropWhile

/-- A word is all of its text up to where something of another kind follows. -/
theorem takeWhile_word {p : Char → Bool} {word rest : List Char} (hword : ∀ c ∈ word, p c = true)
    (hrest : ∀ c ∈ rest.head?, p c = false) : (word ++ rest).takeWhile p = word := by
  rw [List.takeWhile_append_of_pos hword]
  cases rest with
  | nil => simp
  | cons c rest =>
    rw [List.takeWhile_cons_of_neg, List.append_nil]
    rw [hrest c rfl]
    exact Bool.false_ne_true

theorem dropWhile_word {p : Char → Bool} {word rest : List Char} (hword : ∀ c ∈ word, p c = true)
    (hrest : ∀ c ∈ rest.head?, p c = false) : (word ++ rest).dropWhile p = rest := by
  rw [List.dropWhile_append_of_pos hword]
  cases rest with
  | nil => rfl
  | cons c rest =>
    rw [List.dropWhile_cons_of_neg]
    rw [hrest c rfl]
    exact Bool.false_ne_true

/-- A digit is not a given character of another kind. -/
theorem ne_of_isDigit {c d : Char} (hc : isDigit c = true) (hd : isDigit d = false) : c ≠ d := by
  rintro rfl
  exact absurd hc (hd ▸ Bool.false_ne_true)

/-- A digit is no white space. -/
theorem isBlank_of_isDigit {c : Char} (h : isDigit c = true) : isBlank c = false := by
  simp only [isDigit, Bool.and_eq_true, decide_eq_true_eq, Char.le_def] at h
  have hlow : 48 ≤ c.toNat := h.1
  have hhigh : c.toNat ≤ 57 := h.2
  simp only [isBlank, Bool.or_eq_false_iff, Bool.and_eq_false_iff, decide_eq_false_iff_not,
    beq_eq_false_iff_ne]
  omega

/-! ### Values -/

theorem digitsValue_nil : digitsValue [] = 0 := rfl

theorem digitsValue_append (first second : List Char) :
    digitsValue (first ++ second) =
      digitsValue first * 10 ^ second.length + digitsValue second := by
  rw [digitsValue, Nat.ofDigitChars_append, Nat.ofDigitChars_eq_ofDigitChars_zero, digitsValue,
    digitsValue, Nat.mul_comm]

theorem digitsValue_cons (c : Char) (word : List Char) :
    digitsValue (c :: word) = (c.toNat - 48) * 10 ^ word.length + digitsValue word := by
  have happend := digitsValue_append [c] word
  have hsingle : digitsValue [c] = c.toNat - 48 := by
    simp [digitsValue, Nat.ofDigitChars_cons]
  rwa [hsingle] at happend

theorem digitsValue_replicate_zero (count : ℕ) : digitsValue (List.replicate count '0') = 0 := by
  rw [digitsValue, Nat.ofDigitChars_replicate_zero, Nat.mul_zero]

theorem digitsValue_toDigits (n : ℕ) : digitsValue (Nat.toDigits 10 n) = n :=
  Nat.ofDigitChars_ten_toDigits

/-- A word of digits has fewer values than a power of ten. -/
theorem digitsValue_lt {word : List Char} (h : IsDigits word) :
    digitsValue word < 10 ^ word.length := by
  induction word with
  | nil => decide
  | cons c word ih =>
    have hc := h.head
    simp only [isDigit, Bool.and_eq_true, decide_eq_true_eq, Char.le_def] at hc
    have hdigit : c.toNat - 48 ≤ 9 := by
      have : c.toNat ≤ 57 := hc.2
      omega
    have hmul := Nat.mul_le_mul_right (10 ^ word.length) hdigit
    have hrest := ih h.tail
    rw [digitsValue_cons, List.length_cons, pow_succ]
    omega

/-- The word of a positive number starts with a digit other than zero. -/
theorem head?_toDigits {n : ℕ} (hpos : 0 < n) : (Nat.toDigits 10 n).head? ≠ some '0' := by
  induction n using Nat.strong_induction_on with
  | _ n ih =>
    rcases Nat.lt_or_ge n 10 with hsmall | hlarge
    · rw [Nat.toDigits_of_lt_base hsmall]
      interval_cases n <;> decide
    · rw [Nat.toDigits_of_base_le (by decide) hlarge, List.head?_append_of_ne_nil _
        Nat.toDigits_ne_nil]
      exact ih (n / 10) (by omega) (by omega)

/-! ### Digits that fit a machine word -/

namespace Json

/-- As long as the value fits a machine word, all digits are appended. -/
theorem appendDigits_eq {value : ℕ} {word : List Char} (hword : IsDigits word)
    (h : value * 10 ^ word.length + digitsValue word ≤ Word.unsignedMax) :
    appendDigits value word = (value * 10 ^ word.length + digitsValue word, 0) := by
  induction word generalizing value with
  | nil =>
    rw [appendDigits, List.length_nil, pow_zero, Nat.mul_one, digitsValue_nil, Nat.add_zero]
  | cons c rest ih =>
    have hvalue : value * 10 ^ (c :: rest).length + digitsValue (c :: rest) =
        (value * 10 + (c.toNat - 48)) * 10 ^ rest.length + digitsValue rest := by
      rw [digitsValue_cons, List.length_cons, pow_succ]
      ring
    rw [hvalue] at h ⊢
    have hnext : value * 10 + (c.toNat - 48) ≤ Word.unsignedMax :=
      (Nat.le_mul_of_pos_right _ (pow_pos (by decide) _)).trans
        ((Nat.le_add_right _ _).trans h)
    rw [appendDigits]
    simp only [if_neg (Nat.not_lt.mpr hnext)]
    exact ih hword.tail h

end Json

end Segmentation
