import Mathlib
import Segmentation.Proofs.Binary64.Order
import Segmentation.Proofs.Decimal.Nearest
import Segmentation.Proofs.Numeral.Literal

/-!
# The texts that are numbers

An operand is a number if, without the white space around it, it is empty, an infinity, a radix
literal or a decimal literal: `IsNumeral` lists these words. `read_accepts_numerals` shows that
exactly these are read as something other than NaN, and which double the words other than radix
literals give.

The digits of a radix literal are gathered in doubles. A sum of products of unsigned doubles stays
unsigned (`IsUnsigned.mulAdd`), and so never is a NaN, however long the literal is. A decimal
literal is found by its parts and rounded once, which gives a number or an infinity.
-/

set_option autoImplicit false

namespace Segmentation.Text

/-! ### White space -/

/-- The word is the text without the white space at both ends. -/
structure IsTrimmed (text word : List Char) : Prop where
  around : ∃ front back, text = front ++ word ++ back ∧ ∀ c ∈ front ++ back, isBlank c = true
  head : ∀ c ∈ word.head?, isBlank c = false
  last : ∀ c ∈ word.getLast?, isBlank c = false

theorem exists_trimStart (text : List Char) : ∃ front, text = front ++ trimStart text ∧
    (∀ c ∈ front, isBlank c = true) ∧ ∀ c ∈ (trimStart text).head?, isBlank c = false :=
  ⟨text.takeWhile isBlank, List.takeWhile_append_dropWhile.symm,
    fun _ ↦ List.mem_takeWhile_imp, fun _ ↦ of_mem_head?_dropWhile⟩

theorem exists_trimEnd (text : List Char) : ∃ back, text = trimEnd text ++ back ∧
    (∀ c ∈ back, isBlank c = true) ∧ ∀ c ∈ (trimEnd text).getLast?, isBlank c = false := by
  obtain ⟨front, hsplit, hfront, hhead⟩ := exists_trimStart text.reverse
  refine ⟨front.reverse, ?_, fun c hc ↦ hfront c (List.mem_reverse.mp hc), fun c hc ↦ hhead c ?_⟩
  · rw [trimEnd, ← trimStart, ← List.reverse_append, ← hsplit, List.reverse_reverse]
  · rwa [trimEnd, List.getLast?_reverse] at hc

/-- Trimming takes away the white space at both ends and nothing else. -/
theorem isTrimmed_trim (text : List Char) : IsTrimmed text (trim text) := by
  obtain ⟨front, htext, hfront, hhead⟩ := exists_trimStart text
  obtain ⟨back, hrest, hback, hlast⟩ := exists_trimEnd (trimStart text)
  refine ⟨⟨front, back, ?_, ?_⟩, fun c hc ↦ hhead c ?_, hlast⟩
  · rw [List.append_assoc, trim, ← hrest, ← htext]
  · exact fun c hc ↦ (List.mem_append.mp hc).elim (hfront c) (hback c)
  · rw [hrest]
    exact List.mem_head?_append_of_mem_head? hc

/-! ### Digits of a radix -/

theorem digits?_cons (radix : ℕ) (c : Char) (word : List Char) :
    digits? radix (c :: word) = (digit? radix c).bind fun digit ↦
      (digits? radix word).map (digit :: ·) := by
  unfold digits?
  rw [List.mapM_cons]
  cases digit? radix c with
  | none => rfl
  | some digit => cases List.mapM (digit? radix) word <;> rfl

/-- A word consists of digits if each of its characters is one. -/
theorem digits?_ne_none_iff {radix : ℕ} {word : List Char} :
    digits? radix word ≠ none ↔ ∀ c ∈ word, digit? radix c ≠ none := by
  induction word with
  | nil => exact iff_of_true (by simp [digits?]) (by simp)
  | cons c word ih =>
    rw [List.forall_mem_cons, ← ih, digits?_cons]
    cases digit? radix c <;> cases digits? radix word <;> simp

/-- The digits of a radix are below it. -/
theorem lt_of_mem_digits? {radix : ℕ} {word : List Char} {digits : List ℕ}
    (h : digits? radix word = some digits) : ∀ digit ∈ digits, digit < radix := by
  induction word generalizing digits with
  | nil =>
    obtain rfl : [] = digits := Option.some.inj h
    simp
  | cons c word ih =>
    rw [digits?_cons, Option.bind_eq_some_iff] at h
    obtain ⟨digit, hdigit, hrest⟩ := h
    obtain ⟨rest, hword, rfl⟩ := Option.map_eq_some_iff.mp hrest
    have hlt : digit < radix := by simpa using (Option.filter_eq_some_iff.mp hdigit).2
    exact List.forall_mem_cons.mpr ⟨hlt, ih hword⟩

theorem ofDigits_append (radix : ℕ) (digits : List ℕ) (digit : ℕ) :
    ofDigits radix (digits ++ [digit]) = ofDigits radix digits * radix + digit := by
  rw [ofDigits, List.foldl_append]
  rfl

/-- Digits are read with the highest first. -/
theorem ofDigits_eq_reverse (radix : ℕ) (digits : List ℕ) :
    ofDigits radix digits = Nat.ofDigits radix digits.reverse := by
  induction digits using List.reverseRecOn with
  | nil => rfl
  | append_singleton digits digit ih =>
    rw [ofDigits_append, ih, List.reverse_concat, Nat.ofDigits_cons, Nat.add_comm, Nat.mul_comm]

/-- The value of a digit; the other characters have none. -/
def digitValue (c : Char) : ℕ := (hexValue? c).getD 0

theorem digitValue_of_digit? {radix digit : ℕ} {c : Char} (h : digit? radix c = some digit) :
    digitValue c = digit := by
  rw [digitValue, (Option.filter_eq_some_iff.mp h).1, Option.getD_some]

theorem digits?_eq_map {radix : ℕ} {word : List Char} {digits : List ℕ}
    (h : digits? radix word = some digits) : digits = word.map digitValue := by
  induction word generalizing digits with
  | nil => exact (Option.some.inj h).symm
  | cons c word ih =>
    rw [digits?_cons, Option.bind_eq_some_iff] at h
    obtain ⟨digit, hdigit, hrest⟩ := h
    obtain ⟨rest, hword, rfl⟩ := Option.map_eq_some_iff.mp hrest
    rw [List.map_cons, digitValue_of_digit? hdigit, ih hword]

/-- A word is a number in a radix if it has digits, and only such of the radix. -/
theorem natural?_eq_some_iff {radix : ℕ} {word : List Char} {n : ℕ} :
    natural? radix word = some n ↔ word ≠ [] ∧ (∀ c ∈ word, digit? radix c ≠ none) ∧
      Nat.ofDigits radix (word.map digitValue).reverse = n := by
  rw [← digits?_ne_none_iff, natural?, ← ofDigits_eq_reverse]
  cases word with
  | nil => simp
  | cons c word =>
    rw [List.isEmpty_cons, if_neg Bool.false_ne_true]
    cases hdigits : digits? radix (c :: word) with
    | none => simp
    | some digits => simp [digits?_eq_map hdigits]

end Segmentation.Text

namespace Segmentation.Binary64

/-! ### Unsigned sums and products -/

/-- The double is a finite number without a sign, or the positive infinity. -/
def IsUnsigned (x : Binary64) : Prop := IsMagnitude x ∨ x = .infinite false

theorem IsUnsigned.ne_nan {x : Binary64} (h : IsUnsigned x) : x ≠ .nan := by
  rcases h with ⟨rank, rfl⟩ | rfl <;> simp

theorem isUnsigned_ofUnits (numerator denominator : ℕ) :
    IsUnsigned (ofUnits false numerator denominator) := by
  unfold ofUnits ofRank
  split
  · exact Or.inl ⟨_, rfl⟩
  · exact Or.inr rfl

/-- Multiplying by a positive number does not make a NaN, not even of infinity. -/
theorem IsUnsigned.mul {x : Binary64} (hx : IsUnsigned x) {factor : Fin rankBound}
    (hpos : 0 < factor.val) : IsUnsigned (x.mul (.finite false factor)) := by
  rcases hx with hx | rfl
  · exact hx.mul ⟨factor, rfl⟩
  · exact Or.inr (if_neg hpos.ne')

theorem IsUnsigned.add {x : Binary64} (hx : IsUnsigned x) (term : Fin rankBound) :
    IsUnsigned (x.add (.finite false term)) := by
  rcases hx with ⟨rank, rfl⟩ | rfl
  · have hsum : ¬ signedUnits false rank + signedUnits false term < 0 := by
      simp only [signedUnits, Bool.false_eq_true, if_false]
      omega
    simp only [Binary64.add, Bool.and_self, decide_eq_false hsum]
    split
    · exact Or.inl ⟨_, rfl⟩
    · exact isUnsigned_ofUnits _ 1
  · exact Or.inr rfl

/-- One step of gathering digits. -/
theorem IsUnsigned.mulAdd {x : Binary64} (hx : IsUnsigned x) {radix digit : ℕ}
    (hpos : 0 < radix) (hradix : radix ≤ 2 ^ 53) (hdigit : digit ≤ 2 ^ 53) :
    IsUnsigned ((x.mul (.ofNat radix)).add (.ofNat digit)) := by
  obtain ⟨factor, hfactor, hunits⟩ := holds_short hradix
  obtain ⟨term, hterm, -⟩ := holds_short hdigit
  have hne : factor.val ≠ 0 := ne_zero_of_units (hunits ▸ Nat.mul_pos hpos unitsPerOne_pos)
  rw [hfactor, hterm]
  exact (hx.mul (Nat.pos_of_ne_zero hne)).add term

end Segmentation.Binary64

namespace Segmentation.Numeral

open Text Binary64

/-! ### Radix literals -/

/-- Digits that are gathered in doubles give a number or infinity, however many they are. -/
theorem isUnsigned_gather {radix : ℕ} (hpos : 0 < radix) (hradix : radix ≤ 2 ^ 53)
    {digits : List ℕ} (hdigits : ∀ digit ∈ digits, digit < radix) :
    IsUnsigned (gather radix digits) := by
  have hfold : ∀ (digits : List ℕ) (x : Binary64), IsUnsigned x →
      (∀ digit ∈ digits, digit < radix) → IsUnsigned (digits.foldl
        (fun value digit ↦ (value.mul (.ofNat radix)).add (.ofNat digit)) x) := by
    intro digits
    induction digits with
    | nil => exact fun x hx _ ↦ hx
    | cons digit digits ih =>
      intro x hx hall
      obtain ⟨hdigit, hrest⟩ := List.forall_mem_cons.mp hall
      exact ih _ (hx.mulAdd hpos hradix (hdigit.le.trans hradix)) hrest
  exact hfold digits .zero (Or.inl ⟨_, rfl⟩) hdigits

/-- The digits of a radix prefix are read unless there is none or one is not of the radix. -/
theorem readRadix_ne_nan_iff {radix : ℕ} (hpos : 0 < radix) (hradix : radix ≤ 2 ^ 53)
    {word : List Char} :
    readRadix radix word ≠ .nan ↔ word ≠ [] ∧ ∀ c ∈ word, digit? radix c ≠ none := by
  rw [← digits?_ne_none_iff, readRadix]
  cases word with
  | nil => simp
  | cons c word =>
    rw [List.isEmpty_cons, if_neg Bool.false_ne_true]
    cases hdigits : digits? radix (c :: word) with
    | none => simp
    | some digits =>
      have hunsigned := isUnsigned_gather hpos hradix (lt_of_mem_digits? hdigits)
      simp [hunsigned.ne_nan]

/-- The characters that are digits of a radix come before the other letters. -/
theorem lt_of_digit? {radix : ℕ} {c : Char} (h : digit? radix c ≠ none) : c.toNat < 103 := by
  by_contra hlarge
  have hnone : hexValue? c = none := by
    simp only [hexValue?, Char.le_def, UInt32.le_iff_toNat_le, Char.toNat] at hlarge ⊢
    have hbounds : '9'.val.toNat = 57 ∧ 'f'.val.toNat = 102 ∧ 'F'.val.toNat = 70 := by decide
    rw [if_neg (by omega), if_neg (by omega), if_neg (by omega)]
  exact h (by rw [digit?, hnone]; rfl)

/-- The characters up to the last digit of any radix. -/
def digitCandidates : List Char := (List.range 103).map Char.ofNat

theorem mem_digitCandidates {c : Char} (h : c.toNat < 103) : c ∈ digitCandidates :=
  List.mem_map.mpr ⟨c.toNat, List.mem_range.mpr h, Char.ofNat_toNat c⟩

/-- The digits of a form are the digits of its radix. -/
theorem digit?_ne_none_iff {form : RadixForm} (hform : form ∈ radixForms) (c : Char) :
    digit? form.radix c ≠ none ↔ c ∈ form.digits := by
  constructor
  · have hforms : radixForms.all (fun form ↦ digitCandidates.all fun c ↦
        (digit? form.radix c).isNone || form.digits.contains c) = true := by decide +kernel
    intro hc
    have hform := List.all_eq_true.mp (List.all_eq_true.mp hforms form hform) c
      (mem_digitCandidates (lt_of_digit? hc))
    simpa [hc] using hform
  · intro hc
    fin_cases hform <;> fin_cases hc <;> decide

/-- The number that digits of a form denote. -/
def RadixForm.value (form : RadixForm) (digits : List Char) : ℕ :=
  Nat.ofDigits form.radix (digits.map digitValue).reverse

theorem natural?_form_eq_some_iff {form : RadixForm} (hform : form ∈ radixForms)
    {word : List Char} {n : ℕ} :
    natural? form.radix word = some n ↔
      word ≠ [] ∧ (∀ c ∈ word, c ∈ form.digits) ∧ form.value word = n := by
  simp only [natural?_eq_some_iff, digit?_ne_none_iff hform, RadixForm.value]

/-- What follows a radix prefix is read exactly if it is a word of digits of the radix. -/
theorem readRadix_form_ne_nan_iff {form : RadixForm} (hform : form ∈ radixForms)
    {word : List Char} :
    readRadix form.radix word ≠ .nan ↔ word ≠ [] ∧ ∀ c ∈ word, c ∈ form.digits := by
  have hradix : ∀ form ∈ radixForms, 0 < form.radix ∧ form.radix ≤ 16 := by decide
  obtain ⟨hpos, hle⟩ := hradix form hform
  rw [readRadix_ne_nan_iff hpos (hle.trans (by norm_num))]
  simp only [digit?_ne_none_iff hform]

/-! ### The grammar -/

/-- The words that are numbers. -/
inductive IsNumeral : List Char → Prop
  /-- The empty word is zero. -/
  | empty : IsNumeral []
  /-- The infinities have a name and an optional sign. -/
  | infinity {sign : Option Char} (hsign : ∀ c ∈ sign, c = '+' ∨ c = '-') :
      IsNumeral (sign.toList ++ "Infinity".toList)
  /-- A radix literal is a zero, a marker and at least one digit, without a sign. -/
  | radix {form : RadixForm} (hform : form ∈ radixForms) {marker : Char}
      (hmarker : marker ∈ form.markers) {digits : List Char} (hsome : digits ≠ [])
      (hdigits : ∀ c ∈ digits, c ∈ form.digits) : IsNumeral ('0' :: marker :: digits)
  /-- A decimal literal has a digit before or behind its point. -/
  | decimal (literal : DecimalLiteral) : IsNumeral literal.text

theorem mem_namedWords_iff {word : List Char} : word ∈ namedWords ↔ word = [] ∨
    ∃ sign : Option Char, (∀ c ∈ sign, c = '+' ∨ c = '-') ∧
      word = sign.toList ++ "Infinity".toList := by
  simp only [namedWords, List.mem_cons, List.not_mem_nil, or_false]
  refine or_congr_right ⟨?_, ?_⟩
  · rintro (rfl | rfl | rfl)
    · exact ⟨none, by simp, rfl⟩
    · exact ⟨some '+', by simp, rfl⟩
    · exact ⟨some '-', by simp, rfl⟩
  · rintro ⟨sign, hsign, rfl⟩
    cases sign with
    | none => exact Or.inl rfl
    | some c =>
      rcases hsign c rfl with rfl | rfl
      · exact Or.inr (Or.inl rfl)
      · exact Or.inr (Or.inr rfl)

theorem isNumeral_of_mem_namedWords {word : List Char} (h : word ∈ namedWords) :
    IsNumeral word := by
  rcases mem_namedWords_iff.mp h with rfl | ⟨sign, hsign, rfl⟩
  · exact .empty
  · exact .infinity hsign

/-- The infinities are read with their sign. -/
theorem readWord_infinity {sign : Option Char} (hsign : ∀ c ∈ sign, c = '+' ∨ c = '-') :
    readWord (sign.toList ++ "Infinity".toList) = .infinite (decide (sign = some '-')) := by
  cases sign with
  | none => rfl
  | some c => rcases hsign c rfl with rfl | rfl <;> rfl

/-- A decimal literal is read as the double nearest to its exact value. -/
theorem readWord_text (literal : DecimalLiteral) :
    readWord literal.text = literal.decimal.toBinary64 :=
  readWord_of_decimal? literal.cutRadix_text literal.decimal?_text

theorem cutRadix_radixLiteral {form : RadixForm} (hform : form ∈ radixForms) {marker : Char}
    (hmarker : marker ∈ form.markers) (digits : List Char) :
    cutRadix ('0' :: marker :: digits) = some (form.radix, digits) :=
  cutRadix_eq_some_iff.mpr ⟨form, hform, marker, hmarker, rfl, rfl⟩

/-- A word with a radix prefix is a number exactly if digits of the radix follow. -/
theorem readRadix_ne_nan_iff_isNumeral {word digits : List Char} {radix : ℕ}
    (hcut : cutRadix word = some (radix, digits)) :
    readRadix radix digits ≠ .nan ↔ IsNumeral word := by
  constructor
  · obtain ⟨form, hform, marker, hmarker, rfl, rfl⟩ := cutRadix_eq_some_iff.mp hcut
    intro hread
    obtain ⟨hsome, hdigits⟩ := (readRadix_form_ne_nan_iff hform).mp hread
    exact .radix hform hmarker hsome hdigits
  · intro hnumeral
    cases hnumeral with
    | empty => exact absurd hcut (by simp [cutRadix])
    | infinity hsign =>
      have hnamed := mem_namedWords_iff.mpr (Or.inr ⟨_, hsign, rfl⟩)
      exact absurd (hcut.symm.trans (cutRadix_of_mem_namedWords hnamed)) (by simp)
    | decimal literal => exact absurd (hcut.symm.trans literal.cutRadix_text) (by simp)
    | radix hform hmarker hsome hdigits =>
      have hsame := (cutRadix_radixLiteral hform hmarker _).symm.trans hcut
      obtain ⟨rfl, rfl⟩ := Prod.mk.inj (Option.some.inj hsame)
      exact (readRadix_form_ne_nan_iff hform).mpr ⟨hsome, hdigits⟩

/-- A word that is neither named nor a radix literal is a number exactly if it is a decimal
literal. -/
theorem decimal?_ne_none_iff_isNumeral {word : List Char} (hnamed : word ∉ namedWords)
    (hcut : cutRadix word = none) : decimal? word ≠ none ↔ IsNumeral word := by
  rw [Option.ne_none_iff_exists']
  constructor
  · rintro ⟨d, hd⟩
    obtain ⟨literal, rfl, -⟩ := exists_text_of_decimal? hd
    exact .decimal literal
  · intro hnumeral
    cases hnumeral with
    | empty => exact absurd (mem_namedWords_iff.mpr (Or.inl rfl)) hnamed
    | infinity hsign => exact absurd (mem_namedWords_iff.mpr (Or.inr ⟨_, hsign, rfl⟩)) hnamed
    | decimal literal => exact ⟨_, literal.decimal?_text⟩
    | radix hform hmarker hsome hdigits =>
      exact absurd ((cutRadix_radixLiteral hform hmarker _).symm.trans hcut) (by simp)

/-- The words of the grammar are read, and no others. -/
theorem readWord_ne_nan_iff (word : List Char) : readWord word ≠ .nan ↔ IsNumeral word := by
  by_cases hnamed : word ∈ namedWords
  · refine iff_of_true ?_ (isNumeral_of_mem_namedWords hnamed)
    fin_cases hnamed <;> decide
  · rw [readWord_of_not_mem_namedWords hnamed]
    cases hcut : cutRadix word with
    | some parts => exact readRadix_ne_nan_iff_isNumeral hcut
    | none =>
      rw [← decimal?_ne_none_iff_isNumeral hnamed hcut]
      cases decimal? word with
      | none => simp
      | some d => simp [d.toBinary64_ne_nan]

/-- A text is a number exactly if it is one of the grammar, without the white space around it. The
empty word is zero, the named words are the infinities, and a decimal literal of any length gives
the double nearest to its exact value, of two equally near the even one, or an infinity past the
largest. -/
theorem read_accepts_numerals (text : String) :
    IsTrimmed text.toList (trim text.toList) ∧
      (read text ≠ .nan ↔ IsNumeral (trim text.toList)) ∧
      (trim text.toList = [] → read text = .zero) ∧
      (∀ sign : Option Char, (∀ c ∈ sign, c = '+' ∨ c = '-') →
        trim text.toList = sign.toList ++ "Infinity".toList →
        read text = .infinite (decide (sign = some '-'))) ∧
      ∀ literal : DecimalLiteral, trim text.toList = literal.text →
        read text = literal.decimal.toBinary64 ∧ read text ≠ .nan ∧
          ∃ rank, IsNearest rank (literal.decimal.numerator * unitsPerOne)
              literal.decimal.denominator ∧
            read text = ofRank (decide (literal.sign = some '-')) rank := by
  refine ⟨isTrimmed_trim _, readWord_ne_nan_iff _, fun hempty ↦ ?_, fun sign hsign hword ↦ ?_,
    fun literal hword ↦ ?_⟩
  · rw [read, hempty]
    rfl
  · rw [read, hword, readWord_infinity hsign]
  · have hread : read text = literal.decimal.toBinary64 := by rw [read, hword, readWord_text]
    refine ⟨hread, hread ▸ literal.decimal.toBinary64_ne_nan,
      nearestRank (literal.decimal.numerator * unitsPerOne) literal.decimal.denominator,
      isNearest_nearestRank _ literal.decimal.denominator_pos, ?_⟩
    rw [hread, literal.decimal.toBinary64_eq_ofRatio]
    rfl

/-- The literal `-.5e+1`. -/
def pointedLiteral : DecimalLiteral where
  sign := some '-'
  whole := []
  fraction := some ['5']
  exponent := some ⟨'e', some '+', ['1'], Or.inl rfl, by simp, by simp, .cons rfl .nil⟩
  sign_eq := by simp
  whole_isDigits := .nil
  fraction_isDigits := .cons rfl .nil
  digits_ne_nil := by simp

/-- One text of each kind: white space, an infinity with a sign, and a decimal literal between two
kinds of white space. -/
theorem read_accepts_numerals_three :
    (trim "\t".toList = [] ∧ read "\t" = .zero) ∧
      (trim "+Infinity".toList = '+' :: "Infinity".toList ∧
        read "+Infinity" = .infinite false) ∧
      (trim " -.5e+1\u3000".toList = pointedLiteral.text ∧
        read " -.5e+1\u3000" = Decimal.toBinary64 ⟨true, 5, 0⟩) := by
  have hblank : trim "\t".toList = [] := by decide
  have hinfinity : trim "+Infinity".toList = '+' :: "Infinity".toList := by decide
  have hpointed : trim " -.5e+1\u3000".toList = pointedLiteral.text := by decide
  refine ⟨⟨hblank, (read_accepts_numerals "\t").2.2.1 hblank⟩, ⟨hinfinity, ?_⟩, ⟨hpointed, ?_⟩⟩
  · exact (read_accepts_numerals "+Infinity").2.2.2.1 (some '+') (by simp) hinfinity
  · exact ((read_accepts_numerals " -.5e+1\u3000").2.2.2.2 pointedLiteral hpointed).1

end Segmentation.Numeral
