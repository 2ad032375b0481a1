import Mathlib
import Segmentation.Numeral
import Segmentation.Proofs.Json.Literal

/-!
# Decimal literals of operands

A decimal literal is an optional sign, digits with at most one point before, among or behind them,
and an optional exponent. `DecimalLiteral` holds these parts, `DecimalLiteral.text` writes them down
and `DecimalLiteral.decimal` is the exact value that they denote. The number literals of JSON are a
part of this grammar.

`decimal?` takes a word apart by its first marker and its first point and only then looks at the
digits. `decimal?_text` shows that it finds the parts of a literal again, and
`exists_text_of_decimal?` that a word in which it finds all parts is a literal. Together
(`decimal?_eq_some_iff`), a word is accepted exactly if it is the text of a literal, with the value
of the literal.
-/

set_option autoImplicit false

namespace Segmentation.Numeral

open Text
open Json.Literal (Exponent)

/-- A decimal literal by its parts. Without a point there is no fraction; a point may have digits on
one side only. -/
structure DecimalLiteral where
  sign : Option Char
  whole : List Char
  fraction : Option (List Char)
  exponent : Option Exponent
  sign_eq : ∀ c ∈ sign, c = '+' ∨ c = '-'
  whole_isDigits : IsDigits whole
  fraction_isDigits : IsDigits (fraction.getD [])
  digits_ne_nil : whole ++ fraction.getD [] ≠ []

/-- A fraction as it is written. -/
def fractionText : Option (List Char) → List Char
  | none => []
  | some digits => '.' :: digits

/-- An exponent as it is written. -/
def exponentText : Option Exponent → List Char
  | none => []
  | some exponent => exponent.text

def exponentValue : Option Exponent → ℤ
  | none => 0
  | some exponent => exponent.value

namespace DecimalLiteral

def text (literal : DecimalLiteral) : List Char :=
  literal.sign.toList ++
    ((literal.whole ++ fractionText literal.fraction) ++ exponentText literal.exponent)

/-- The number that a literal denotes exactly. -/
def decimal (literal : DecimalLiteral) : Decimal :=
  ⟨decide (literal.sign = some '-'), digitsValue (literal.whole ++ literal.fraction.getD []),
    exponentValue literal.exponent - (literal.fraction.getD []).length⟩

end DecimalLiteral

/-! ### Signs -/

/-- A sign is told from what follows it. -/
theorem cutSign_append {sign : Option Char} {body : List Char}
    (hsign : ∀ c ∈ sign, c = '+' ∨ c = '-') (hbody : ∀ c ∈ body.head?, c ≠ '+' ∧ c ≠ '-') :
    cutSign (sign.toList ++ body) = (decide (sign = some '-'), body) := by
  cases sign with
  | some c => rcases hsign c rfl with rfl | rfl <;> rfl
  | none =>
    rw [Option.toList_none, List.nil_append]
    unfold cutSign
    split
    · exact absurd rfl (hbody _ rfl).2
    · exact absurd rfl (hbody _ rfl).1
    · rfl

/-- What is cut off a word is a sign or nothing. -/
theorem exists_sign_of_cutSign (word : List Char) : ∃ sign : Option Char,
    (∀ c ∈ sign, c = '+' ∨ c = '-') ∧ sign.toList ++ (cutSign word).2 = word ∧
      (cutSign word).1 = decide (sign = some '-') := by
  unfold cutSign
  split
  · exact ⟨some '-', by simp, rfl, rfl⟩
  · exact ⟨some '+', by simp, rfl, rfl⟩
  · exact ⟨none, by simp, rfl, rfl⟩

theorem not_isSign_of_isDigit {c : Char} (h : isDigit c = true) : c ≠ '+' ∧ c ≠ '-' :=
  ⟨ne_of_isDigit h (by decide), ne_of_isDigit h (by decide)⟩

/-! ### Exponents -/

/-- The marker of an exponent. -/
def isMarker (c : Char) : Bool := c == 'e' || c == 'E'

theorem isMarker_iff {c : Char} : isMarker c = true ↔ c = 'e' ∨ c = 'E' := by
  simp [isMarker]

theorem isMarker_of_isDigit {c : Char} (h : isDigit c = true) : isMarker c = false := by
  rw [← Bool.not_eq_true, isMarker_iff, not_or]
  exact ⟨ne_of_isDigit h (by decide), ne_of_isDigit h (by decide)⟩

/-- An exponent is read with its sign. -/
theorem exponent?_exponentText (exponent : Option Exponent) :
    exponent? (exponentText exponent) = some (exponentValue exponent) := by
  cases exponent with
  | none => rfl
  | some exponent =>
    have hcut : cutSign (exponent.sign.toList ++ exponent.digits) =
        (decide (exponent.sign = some '-'), exponent.digits) :=
      cutSign_append exponent.sign_eq fun c hc ↦
        not_isSign_of_isDigit (exponent.isDigits c (List.mem_of_mem_head? hc))
    have hall : exponent.digits.all isDigit = true := List.all_eq_true.mpr exponent.isDigits
    have hsome : exponent.digits.isEmpty = false := by simpa using exponent.digits_ne_nil
    simp only [exponentText, exponentValue, Exponent.text, Exponent.value, exponent?, hcut, hall,
      hsome, Bool.not_false, Bool.and_self, if_true, decide_eq_true_eq]

/-- What is read as an exponent behind a marker is one. -/
theorem exists_exponent_of_exponent? {text : List Char} {value : ℤ}
    (hmarker : ∀ c ∈ text.head?, isMarker c = true) (h : exponent? text = some value) :
    ∃ exponent, exponentText exponent = text ∧ exponentValue exponent = value := by
  cases text with
  | nil => exact ⟨none, rfl, Option.some.inj h⟩
  | cons marker word =>
    obtain ⟨sign, hsign, hword, hnegative⟩ := exists_sign_of_cutSign word
    simp only [exponent?] at h
    split at h
    · rename_i hdigits
      rw [Bool.and_eq_true, Bool.not_eq_true', List.isEmpty_eq_false_iff] at hdigits
      refine ⟨some ⟨marker, sign, (cutSign word).2, isMarker_iff.mp (hmarker marker rfl), hsign,
        hdigits.1, List.all_eq_true.mp hdigits.2⟩, ?_, ?_⟩
      · rw [exponentText, Exponent.text, hword]
      · rw [hnegative, Option.some.injEq] at h
        simpa only [exponentValue, Exponent.value, decide_eq_true_eq] using h
    · exact absurd h (by simp)

/-! ### Points -/

/-- The digits behind a point are the fraction. -/
theorem fraction_fractionText (digits : Option (List Char)) :
    fraction (fractionText digits) = digits.getD [] := by
  cases digits <;> rfl

/-- What follows the first point is a fraction. -/
theorem exists_fractionText {text : List Char} (hpoint : ∀ c ∈ text.head?, c = '.') :
    ∃ digits, fractionText digits = text := by
  cases text with
  | nil => exact ⟨none, rfl⟩
  | cons c rest => exact ⟨some rest, by rw [fractionText, hpoint c rfl]⟩

/-! ### Literals -/

namespace DecimalLiteral

variable (literal : DecimalLiteral)

/-- Before its exponent a literal consists of digits and a point. -/
theorem mem_mantissa {c : Char} (h : c ∈ literal.whole ++ fractionText literal.fraction) :
    isDigit c = true ∨ c = '.' := by
  rcases List.mem_append.mp h with hwhole | hfraction
  · exact Or.inl (literal.whole_isDigits c hwhole)
  · have hdigits := literal.fraction_isDigits
    cases hpart : literal.fraction with
    | none =>
      rw [hpart] at hfraction
      exact absurd hfraction List.not_mem_nil
    | some digits =>
      rw [hpart] at hfraction hdigits
      rcases List.mem_cons.mp hfraction with hpoint | hdigit
      · exact Or.inr hpoint
      · exact Or.inl (hdigits c hdigit)

theorem isMarker_of_mem_mantissa {c : Char}
    (h : c ∈ literal.whole ++ fractionText literal.fraction) : isMarker c = false := by
  rcases literal.mem_mantissa h with hdigit | rfl
  · exact isMarker_of_isDigit hdigit
  · rfl

theorem isMarker_of_exponentText {c : Char} (h : c ∈ (exponentText literal.exponent).head?) :
    isMarker c = true := by
  cases hexponent : literal.exponent with
  | none => simp [hexponent, exponentText] at h
  | some exponent =>
    rw [hexponent] at h
    obtain rfl : exponent.marker = c := Option.some.inj h
    exact isMarker_iff.mpr exponent.marker_eq

/-- The sign of a literal is told from its digits. -/
theorem cutSign_text : cutSign literal.text =
    (decide (literal.sign = some '-'),
      (literal.whole ++ fractionText literal.fraction) ++ exponentText literal.exponent) := by
  refine cutSign_append literal.sign_eq fun c hc ↦ ?_
  have hmantissa : literal.whole ++ fractionText literal.fraction ≠ [] := by
    intro hnil
    obtain ⟨hwhole, hfraction⟩ := List.append_eq_nil_iff.mp hnil
    have hdigits := literal.digits_ne_nil
    cases hpart : literal.fraction with
    | none => simp [hwhole, hpart] at hdigits
    | some digits => simp [hpart, fractionText] at hfraction
  rw [List.head?_append_of_ne_nil _ hmantissa] at hc
  rcases literal.mem_mantissa (List.mem_of_mem_head? hc) with hdigit | rfl
  · exact not_isSign_of_isDigit hdigit
  · decide

end DecimalLiteral

/-! ### The parts of a word -/

/-- The part of a word between its sign and its first marker. -/
def mantissa (word : List Char) : List Char := (cutSign word).2.takeWhile (!isMarker ·)

/-- The part of a word from its first marker on. -/
def exponentPart (word : List Char) : List Char := (cutSign word).2.dropWhile (!isMarker ·)

/-- The part of a word before its first point. -/
def wholePart (word : List Char) : List Char := (mantissa word).takeWhile (· != '.')

/-- The part of a word behind its first point. -/
def fractionPart (word : List Char) : List Char := fraction ((mantissa word).dropWhile (· != '.'))

/-- A word is a decimal number if there are digits before and behind its point and nothing else, at
least one in all, and its last part is an exponent. -/
theorem decimal?_eq_some_iff_parts {word : List Char} {d : Decimal} :
    decimal? word = some d ↔ wholePart word ++ fractionPart word ≠ [] ∧
      IsDigits (wholePart word ++ fractionPart word) ∧
      ∃ exponent, exponent? (exponentPart word) = some exponent ∧
        d = ⟨(cutSign word).1, digitsValue (wholePart word ++ fractionPart word),
          exponent - (fractionPart word).length⟩ := by
  have hparts : decimal? word =
      if (wholePart word ++ fractionPart word).isEmpty ||
          !(wholePart word ++ fractionPart word).all isDigit then none
      else (exponent? (exponentPart word)).map fun exponent ↦
        ⟨(cutSign word).1, digitsValue (wholePart word ++ fractionPart word),
          exponent - (fractionPart word).length⟩ := rfl
  rw [hparts]
  split
  · rename_i hbad
    rw [Bool.or_eq_true, List.isEmpty_iff, Bool.not_eq_true', List.all_eq_false] at hbad
    refine iff_of_false (by simp) ?_
    rintro ⟨hne, hdigits, -⟩
    rcases hbad with hnil | ⟨c, hc, hother⟩
    · exact hne hnil
    · exact hother (hdigits c hc)
  · rename_i hgood
    rw [Bool.or_eq_true, not_or, List.isEmpty_iff, Bool.not_eq_true', Bool.not_eq_false,
      List.all_eq_true] at hgood
    rw [Option.map_eq_some_iff]
    simp only [eq_comm (a := d)]
    exact ⟨fun h ↦ ⟨hgood.1, hgood.2, h⟩, fun h ↦ h.2.2⟩

/-- The parts of a literal are found again. -/
theorem DecimalLiteral.decimal?_text (literal : DecimalLiteral) :
    decimal? literal.text = some literal.decimal := by
  have hmarker : ∀ c ∈ literal.whole ++ fractionText literal.fraction, (!isMarker c) = true :=
    fun c hc ↦ by rw [literal.isMarker_of_mem_mantissa hc, Bool.not_false]
  have hexponent : ∀ c ∈ (exponentText literal.exponent).head?, (!isMarker c) = false :=
    fun c hc ↦ by rw [literal.isMarker_of_exponentText hc, Bool.not_true]
  have hpoint : ∀ c ∈ literal.whole, (c != '.') = true := fun c hc ↦ by
    simpa using ne_of_isDigit (literal.whole_isDigits c hc) (by decide)
  have hfraction : ∀ c ∈ (fractionText literal.fraction).head?, (c != '.') = false := by
    cases literal.fraction <;> simp [fractionText]
  have hmantissa : mantissa literal.text = literal.whole ++ fractionText literal.fraction := by
    rw [mantissa, literal.cutSign_text, takeWhile_word hmarker hexponent]
  have hwhole : wholePart literal.text = literal.whole := by
    rw [wholePart, hmantissa, takeWhile_word hpoint hfraction]
  have hpart : fractionPart literal.text = literal.fraction.getD [] := by
    rw [fractionPart, hmantissa, dropWhile_word hpoint hfraction, fraction_fractionText]
  refine decimal?_eq_some_iff_parts.mpr ?_
  rw [hwhole, hpart]
  refine ⟨literal.digits_ne_nil, literal.whole_isDigits.append literal.fraction_isDigits,
    exponentValue literal.exponent, ?_, ?_⟩
  · rw [exponentPart, literal.cutSign_text, dropWhile_word hmarker hexponent,
      exponent?_exponentText]
  · rw [literal.cutSign_text, DecimalLiteral.decimal]

/-- A word in which all parts are found is a literal. -/
theorem exists_text_of_decimal? {word : List Char} {d : Decimal} (h : decimal? word = some d) :
    ∃ literal : DecimalLiteral, literal.text = word ∧ literal.decimal = d := by
  obtain ⟨hne, hdigits, value, hvalue, rfl⟩ := decimal?_eq_some_iff_parts.mp h
  obtain ⟨sign, hsign, hword, hnegative⟩ := exists_sign_of_cutSign word
  have hpoint : ∀ c ∈ ((mantissa word).dropWhile (· != '.')).head?, c = '.' :=
    fun c hc ↦ by simpa using of_mem_head?_dropWhile hc
  have hmarker : ∀ c ∈ (exponentPart word).head?, isMarker c = true :=
    fun c hc ↦ by simpa using of_mem_head?_dropWhile hc
  obtain ⟨digits, hfraction⟩ := exists_fractionText hpoint
  obtain ⟨exponent, hexponent, hexponentValue⟩ := exists_exponent_of_exponent? hmarker hvalue
  have hpart : fractionPart word = digits.getD [] := by
    rw [fractionPart, ← hfraction, fraction_fractionText]
  rw [hpart] at hne hdigits
  refine ⟨⟨sign, wholePart word, digits, exponent, hsign,
    fun c hc ↦ hdigits c (List.mem_append_left _ hc),
    fun c hc ↦ hdigits c (List.mem_append_right _ hc), hne⟩, ?_, ?_⟩
  · have hmantissa : wholePart word ++ fractionText digits = mantissa word := by
      rw [hfraction]
      exact List.takeWhile_append_dropWhile
    have hbody : mantissa word ++ exponentPart word = (cutSign word).2 :=
      List.takeWhile_append_dropWhile
    rw [DecimalLiteral.text, hmantissa, hexponent, hbody, hword]
  · rw [DecimalLiteral.decimal, hnegative, hexponentValue, hpart]

/-- A word is a decimal number exactly if it is the text of a literal. -/
theorem decimal?_eq_some_iff {word : List Char} {d : Decimal} :
    decimal? word = some d ↔
      ∃ literal : DecimalLiteral, literal.text = word ∧ literal.decimal = d := by
  refine ⟨exists_text_of_decimal?, ?_⟩
  rintro ⟨literal, rfl, rfl⟩
  exact literal.decimal?_text

/-! ### Radix prefixes -/

/-- A radix with the markers of its prefix and its digits. -/
structure RadixForm where
  radix : ℕ
  markers : List Char
  digits : List Char
  deriving DecidableEq

def radixForms : List RadixForm :=
  [⟨16, ['x', 'X'], ['0', '1', '2', '3', '4', '5', '6', '7', '8', '9', 'a', 'b', 'c', 'd', 'e', 'f',
      'A', 'B', 'C', 'D', 'E', 'F']⟩,
    ⟨8, ['o', 'O'], ['0', '1', '2', '3', '4', '5', '6', '7']⟩, ⟨2, ['b', 'B'], ['0', '1']⟩]

/-- A radix prefix is a zero and a marker. -/
theorem cutRadix_eq_some_iff {word digits : List Char} {radix : ℕ} :
    cutRadix word = some (radix, digits) ↔ ∃ form ∈ radixForms, ∃ marker ∈ form.markers,
      form.radix = radix ∧ word = '0' :: marker :: digits := by
  constructor
  · intro h
    unfold cutRadix at h
    split at h
    · rename_i marker rest
      have hforms : ∀ form ∈ radixForms, marker ∈ form.markers → some (form.radix, rest) =
          some (radix, digits) → ∃ form ∈ radixForms, ∃ marker' ∈ form.markers,
            form.radix = radix ∧ '0' :: marker :: rest = '0' :: marker' :: digits := by
        intro form hform hmarker heq
        obtain ⟨rfl, rfl⟩ := Prod.mk.inj (Option.some.inj heq)
        exact ⟨form, hform, marker, hmarker, rfl, rfl⟩
      split at h
      · rename_i hmarker
        exact hforms _ (List.mem_cons_self) (by simpa using hmarker) h
      · split at h
        · rename_i hmarker
          exact hforms _ (List.mem_cons_of_mem _ List.mem_cons_self) (by simpa using hmarker) h
        · split at h
          · rename_i hmarker
            exact hforms ⟨2, ['b', 'B'], ['0', '1']⟩ (by simp [radixForms])
              (by simpa using hmarker) h
          · exact absurd h (by simp)
    · exact absurd h (by simp)
  · rintro ⟨form, hform, marker, hmarker, rfl, rfl⟩
    fin_cases hform <;> fin_cases hmarker <;> rfl

namespace DecimalLiteral

/-- A literal has no characters but digits, signs, a point and a marker. -/
theorem mem_text (literal : DecimalLiteral) {c : Char} (h : c ∈ literal.text) :
    isDigit c = true ∨ c ∈ ['.', 'e', 'E', '+', '-'] := by
  rcases List.mem_append.mp h with hsign | h
  · rcases literal.sign_eq c (Option.mem_toList.mp hsign) with rfl | rfl <;> simp
  · rcases List.mem_append.mp h with hmantissa | hexponent
    · exact (literal.mem_mantissa hmantissa).imp_right fun hpoint ↦ by simp [hpoint]
    · cases hpart : literal.exponent with
      | none =>
        rw [hpart] at hexponent
        exact absurd hexponent List.not_mem_nil
      | some exponent =>
        rw [hpart] at hexponent
        rcases List.mem_cons.mp hexponent with hmarker | hrest
        · rcases exponent.marker_eq with heq | heq <;> simp [hmarker, heq]
        · rcases List.mem_append.mp hrest with hsign | hdigits
          · rcases exponent.sign_eq c (Option.mem_toList.mp hsign) with rfl | rfl <;> simp
          · exact Or.inl (exponent.isDigits c hdigits)

/-- No decimal literal starts with a radix prefix. -/
theorem cutRadix_text (literal : DecimalLiteral) : cutRadix literal.text = none := by
  cases hcut : cutRadix literal.text with
  | none => rfl
  | some parts =>
    obtain ⟨form, hform, marker, hmarker, -, htext⟩ := cutRadix_eq_some_iff.mp hcut
    have hmem : marker ∈ literal.text := by simp [htext]
    have hletter : isDigit marker = false ∧ marker ∉ ['.', 'e', 'E', '+', '-'] := by
      fin_cases hform <;> fin_cases hmarker <;> decide
    obtain ⟨hdigit, hother⟩ := hletter
    rcases literal.mem_text hmem with h | h
    · exact absurd h (hdigit ▸ Bool.false_ne_true)
    · exact absurd h hother

end DecimalLiteral

end Segmentation.Numeral
