import Mathlib
import Segmentation.Proofs.Numeral.Grammar

/-!
# Number literals as operands

Operands are texts, and the reader of operands accepts more than the number literals of JSON. These
are decimal literals (`DecimalLiteral.ofJson`) with the same text and value, so the double that is
read is the one nearest to the exact value of the literal (`read_text`).
-/

set_option autoImplicit false

namespace Segmentation.Numeral

open Text
open Json (Literal)

/-! ### Characters of a literal -/

/-- A literal contains no white space. -/
theorem isBlank_of_mem_text {literal : Literal} {c : Char} (h : c ∈ literal.text) :
    isBlank c = false := by
  rcases literal.mem_text h with hdigit | hother
  · exact isBlank_of_isDigit hdigit
  · fin_cases hother <;> decide

/-- A text without white space is trimmed already. -/
theorem trim_eq_self {text : List Char} (h : ∀ c ∈ text, isBlank c = false) : trim text = text := by
  have hkeep : ∀ {text : List Char}, (∀ c ∈ text, isBlank c = false) →
      text.dropWhile isBlank = text := by
    intro text htext
    cases text with
    | nil => rfl
    | cons c rest =>
      rw [List.dropWhile_cons_of_neg]
      rw [htext c List.mem_cons_self]
      exact Bool.false_ne_true
  rw [trim, trimStart, trimEnd, hkeep h, hkeep fun c hc ↦ h c (List.mem_reverse.mp hc),
    List.reverse_reverse]

/-! ### Literals of JSON among the decimal literals -/

/-- A number literal of JSON is a decimal literal: its only sign is the minus, and it has a point
only before digits. -/
def DecimalLiteral.ofJson (literal : Literal) : DecimalLiteral where
  sign := if literal.negative then some '-' else none
  whole := literal.whole
  fraction := if literal.fraction = [] then none else some literal.fraction
  exponent := literal.exponent
  sign_eq c hc := by
    split at hc
    · exact Or.inr (Option.some.inj hc).symm
    · exact absurd hc (by simp)
  whole_isDigits := literal.whole_isDigits
  fraction_isDigits := by
    split
    · exact fun c hc ↦ absurd hc List.not_mem_nil
    · exact literal.fraction_isDigits
  digits_ne_nil := fun h ↦ literal.whole_ne_nil (List.append_eq_nil_iff.mp h).1

theorem fractionText_ofJson (literal : Literal) :
    fractionText (DecimalLiteral.ofJson literal).fraction = literal.fractionText := by
  unfold Literal.fractionText
  by_cases hnil : literal.fraction = [] <;> simp [DecimalLiteral.ofJson, hnil, fractionText]

theorem exponentText_ofJson (literal : Literal) :
    exponentText (DecimalLiteral.ofJson literal).exponent = literal.exponentText := by
  unfold DecimalLiteral.ofJson Literal.exponentText
  cases literal.exponent <;> rfl

theorem body_ofJson (literal : Literal) :
    ((DecimalLiteral.ofJson literal).whole ++
        fractionText (DecimalLiteral.ofJson literal).fraction) ++
      exponentText (DecimalLiteral.ofJson literal).exponent =
      literal.whole ++ literal.tailText := by
  rw [fractionText_ofJson, exponentText_ofJson, List.append_assoc]
  rfl

theorem sign_ofJson (literal : Literal) :
    decide ((DecimalLiteral.ofJson literal).sign = some '-') = literal.negative := by
  cases hnegative : literal.negative <;> simp [DecimalLiteral.ofJson, hnegative]

/-- Both grammars write a literal alike. -/
theorem text_ofJson (literal : Literal) : (DecimalLiteral.ofJson literal).text = literal.text := by
  rw [DecimalLiteral.text, body_ofJson, Literal.text]
  cases hnegative : literal.negative <;> simp [DecimalLiteral.ofJson, hnegative]

/-- Both grammars give a literal the same value. -/
theorem decimal_ofJson (literal : Literal) :
    (DecimalLiteral.ofJson literal).decimal = literal.decimal := by
  have hfraction : (DecimalLiteral.ofJson literal).fraction.getD [] = literal.fraction := by
    by_cases hnil : literal.fraction = [] <;> simp [DecimalLiteral.ofJson, hnil]
  have hexponent : exponentValue (DecimalLiteral.ofJson literal).exponent =
      literal.exponentValue := by
    unfold DecimalLiteral.ofJson Literal.exponentValue
    cases literal.exponent <;> rfl
  rw [DecimalLiteral.decimal, sign_ofJson, hfraction, hexponent]
  rfl

/-- The sign of a literal is told from its digits. -/
theorem cutSign_text (literal : Literal) :
    cutSign literal.text = (literal.negative, literal.whole ++ literal.tailText) := by
  rw [← text_ofJson, DecimalLiteral.cutSign_text, sign_ofJson, body_ofJson]

/-- No literal starts with a radix prefix. -/
theorem cutRadix_text (literal : Literal) : cutRadix literal.text = none := by
  rw [← text_ofJson, DecimalLiteral.cutRadix_text]

/-- A literal is read as the exact number that it denotes. -/
theorem decimal?_text (literal : Literal) : decimal? literal.text = some literal.decimal := by
  rw [← text_ofJson, DecimalLiteral.decimal?_text, decimal_ofJson]

/-! ### Words -/

/-- The words that are read without looking at digits: the empty one and the infinities. -/
def namedWords : List (List Char) :=
  [[], "Infinity".toList, "+Infinity".toList, "-Infinity".toList]

/-- Any other word is a radix literal, a decimal literal or not a number. -/
theorem readWord_of_not_mem_namedWords {word : List Char} (h : word ∉ namedWords) :
    readWord word = match cutRadix word with
      | some (radix, digits) => readRadix radix digits
      | none => ((decimal? word).map Decimal.toBinary64).getD .nan := by
  simp only [namedWords, List.mem_cons, List.not_mem_nil, or_false, not_or] at h
  obtain ⟨hempty, hplain, hplus, hminus⟩ := h
  rw [readWord, if_neg (by simpa using hempty), if_neg (not_or.mpr ⟨hplain, hplus⟩),
    if_neg hminus]
  cases cutRadix word with
  | some parts => rfl
  | none => cases decimal? word <;> rfl

theorem decimal?_of_mem_namedWords {word : List Char} (h : word ∈ namedWords) :
    decimal? word = none := by
  fin_cases h <;> decide

theorem cutRadix_of_mem_namedWords {word : List Char} (h : word ∈ namedWords) :
    cutRadix word = none := by
  fin_cases h <;> decide

/-- A word without a radix prefix that is read as an exact number stands for the nearest double. -/
theorem readWord_of_decimal? {word : List Char} {d : Decimal} (hradix : cutRadix word = none)
    (h : decimal? word = some d) : readWord word = d.toBinary64 := by
  have hother : word ∉ namedWords := fun hmem ↦
    absurd ((decimal?_of_mem_namedWords hmem).symm.trans h) (by simp)
  rw [readWord_of_not_mem_namedWords hother, hradix, h]
  rfl

/-- An operand that is a number literal stands for the double nearest to its exact value. -/
theorem read_text (literal : Literal) :
    read (String.ofList literal.text) = literal.decimal.toBinary64 := by
  rw [read, String.toList_ofList, trim_eq_self fun c hc ↦ isBlank_of_mem_text hc,
    readWord_of_decimal? (cutRadix_text literal) (decimal?_text literal)]

end Segmentation.Numeral
