import Mathlib
import Segmentation.Proofs.Numeral.Acceptance
import Segmentation.Proofs.Numeral.Integer

/-!
# The texts that are wide integers

An integer literal is empty, a word of decimal digits with an optional sign, or a radix prefix and
digits of the radix: `IsIntegerLiteral` lists them with the integers that they denote. All of them
are numbers (`IsIntegerLiteral.isNumeral`).

Behind a radix prefix the digits are read like decimal ones, with an optional sign. So besides the
literals a few other words are read as wide integers, those of `IsSignedRadix`, and none of these is
a number (`IsSignedRadix.readWord_eq_nan`). With both, `readWide_accepts_integers` says which texts
are read as which wide integers.
-/

set_option autoImplicit false

namespace Segmentation.Numeral

open Text Binary64

/-! ### Integer literals -/

/-- A natural number with a sign in front. -/
def signedBy (sign : Option Char) (n : ℕ) : ℤ := if sign = some '-' then -n else n

/-- The words that are integer literals, with the integers that they denote. -/
inductive IsIntegerLiteral : List Char → ℤ → Prop
  /-- The empty word is zero. -/
  | empty : IsIntegerLiteral [] 0
  /-- Decimal digits may have a sign. -/
  | decimal {sign : Option Char} (hsign : ∀ c ∈ sign, c = '+' ∨ c = '-') {digits : List Char}
      (hsome : digits ≠ []) (hdigits : IsDigits digits) :
      IsIntegerLiteral (sign.toList ++ digits) (signedBy sign (digitsValue digits))
  /-- A radix literal is a zero, a marker and digits of the radix, without a sign. -/
  | radix {form : RadixForm} (hform : form ∈ radixForms) {marker : Char}
      (hmarker : marker ∈ form.markers) {digits : List Char} (hsome : digits ≠ [])
      (hdigits : ∀ c ∈ digits, c ∈ form.digits) :
      IsIntegerLiteral ('0' :: marker :: digits) (form.value digits)

/-- The word is a radix literal with a sign behind the prefix, and the integer is what its digits
denote with that sign. -/
inductive IsSignedRadix : List Char → ℤ → Prop
  | intro {form : RadixForm} (hform : form ∈ radixForms) {marker : Char}
      (hmarker : marker ∈ form.markers) {sign : Char} (hsign : sign = '+' ∨ sign = '-')
      {digits : List Char} (hsome : digits ≠ []) (hdigits : ∀ c ∈ digits, c ∈ form.digits) :
      IsSignedRadix ('0' :: marker :: sign :: digits) (signedBy (some sign) (form.value digits))

/-- A decimal integer is a decimal literal without point and exponent. -/
theorem exists_text_eq {sign : Option Char} (hsign : ∀ c ∈ sign, c = '+' ∨ c = '-')
    {digits : List Char} (hsome : digits ≠ []) (hdigits : IsDigits digits) :
    ∃ literal : DecimalLiteral, literal.text = sign.toList ++ digits := by
  refine ⟨⟨sign, digits, none, none, hsign, hdigits, .nil, by simpa using hsome⟩, ?_⟩
  simp [DecimalLiteral.text, fractionText, exponentText]

/-- Every integer literal is a number. -/
theorem IsIntegerLiteral.isNumeral {word : List Char} {n : ℤ} (h : IsIntegerLiteral word n) :
    IsNumeral word := by
  cases h with
  | empty => exact .empty
  | decimal hsign hsome hdigits =>
    obtain ⟨literal, htext⟩ := exists_text_eq hsign hsome hdigits
    exact htext ▸ .decimal literal
  | radix hform hmarker hsome hdigits => exact .radix hform hmarker hsome hdigits

/-- A sign is not a digit of a radix. -/
theorem not_isSign_of_digit? {radix : ℕ} {c : Char} (h : digit? radix c ≠ none) :
    c ≠ '+' ∧ c ≠ '-' := by
  constructor
  · rintro rfl
    exact h rfl
  · rintro rfl
    exact h rfl

/-- A radix literal with a sign is not a number. -/
theorem IsSignedRadix.readWord_eq_nan {word : List Char} {n : ℤ} (h : IsSignedRadix word n) :
    readWord word = .nan := by
  obtain ⟨hform, hmarker, hsign, -, -⟩ := h
  rw [readWord_of_cutRadix (cutRadix_radixLiteral hform hmarker _)]
  by_contra hread
  have hdigit := ((readRadix_form_ne_nan_iff hform).mp hread).2 _ List.mem_cons_self
  have hother := not_isSign_of_digit? ((digit?_ne_none_iff hform _).mpr hdigit)
  exact hsign.elim hother.1 hother.2

/-! ### Words that are read as integers -/

/-- Digits with an optional sign are read as the integer that they denote. -/
theorem signedNatural?_eq_some_iff_exists {radix : ℕ} {word : List Char} {n : ℤ} :
    signedNatural? radix word = some n ↔ ∃ (sign : Option Char) (digits : List Char) (m : ℕ),
      (∀ c ∈ sign, c = '+' ∨ c = '-') ∧ sign.toList ++ digits = word ∧
        natural? radix digits = some m ∧ signedBy sign m = n := by
  rw [signedNatural?_eq_some_iff]
  constructor
  · rintro ⟨m, hdigits, rfl⟩
    obtain ⟨sign, hsign, hword, hnegative⟩ := exists_sign_of_cutSign word
    exact ⟨sign, _, m, hsign, hword, hdigits, by simp [signedBy, hnegative]⟩
  · rintro ⟨sign, digits, m, hsign, rfl, hdigits, rfl⟩
    have hhead : ∀ c ∈ digits.head?, c ≠ '+' ∧ c ≠ '-' := fun c hc ↦
      not_isSign_of_digit? ((natural?_eq_some_iff.mp hdigits).2.1 c (List.mem_of_mem_head? hc))
    rw [cutSign_append hsign hhead]
    exact ⟨m, hdigits, by simp [signedBy]⟩

theorem integerWord?_radixLiteral {form : RadixForm} (hform : form ∈ radixForms) {marker : Char}
    (hmarker : marker ∈ form.markers) (word : List Char) :
    integerWord? ('0' :: marker :: word) = signedNatural? form.radix word := by
  rw [integerWord?, List.isEmpty_cons, if_neg Bool.false_ne_true,
    cutRadix_radixLiteral hform hmarker]

theorem IsIntegerLiteral.integerWord?_eq {word : List Char} {n : ℤ} (h : IsIntegerLiteral word n) :
    integerWord? word = some n := by
  cases h with
  | empty => rfl
  | @decimal sign hsign digits hsome hdigits =>
    obtain ⟨literal, htext⟩ := exists_text_eq hsign hsome hdigits
    have hempty : (sign.toList ++ digits).isEmpty = false := by simp [hsome]
    rw [integerWord?, hempty, if_neg Bool.false_ne_true, ← htext, literal.cutRadix_text, htext]
    exact signedNatural?_eq_some_iff_exists.mpr
      ⟨sign, digits, _, hsign, rfl, natural?_ten_eq_some_iff.mpr ⟨hsome, hdigits, rfl⟩, rfl⟩
  | radix hform hmarker hsome hdigits =>
    rw [integerWord?_radixLiteral hform hmarker]
    exact signedNatural?_eq_some_iff_exists.mpr ⟨none, _, _, by simp, rfl,
      (natural?_form_eq_some_iff hform).mpr ⟨hsome, hdigits, rfl⟩, rfl⟩

theorem IsSignedRadix.integerWord?_eq {word : List Char} {n : ℤ} (h : IsSignedRadix word n) :
    integerWord? word = some n := by
  obtain ⟨hform, hmarker, hsign, hsome, hdigits⟩ := h
  rw [integerWord?_radixLiteral hform hmarker]
  exact signedNatural?_eq_some_iff_exists.mpr ⟨some _, _, _, by simpa using hsign, rfl,
    (natural?_form_eq_some_iff hform).mpr ⟨hsome, hdigits, rfl⟩, rfl⟩

/-- The integer literals are read, and besides them the radix literals with a sign. -/
theorem integerWord?_eq_some_iff {word : List Char} {n : ℤ} :
    integerWord? word = some n ↔ IsIntegerLiteral word n ∨ IsSignedRadix word n := by
  refine ⟨fun h ↦ ?_, fun h ↦ h.elim (·.integerWord?_eq) (·.integerWord?_eq)⟩
  unfold integerWord? at h
  split at h
  · rename_i hempty
    obtain rfl := List.isEmpty_iff.mp hempty
    obtain rfl := Option.some.inj h
    exact Or.inl .empty
  cases hcut : cutRadix word with
  | none =>
    rw [hcut] at h
    obtain ⟨sign, digits, m, hsign, rfl, hvalue, rfl⟩ := signedNatural?_eq_some_iff_exists.mp h
    obtain ⟨hsome, hdigits, rfl⟩ := natural?_ten_eq_some_iff.mp hvalue
    exact Or.inl (.decimal hsign hsome hdigits)
  | some parts =>
    rw [hcut] at h
    obtain ⟨form, hform, marker, hmarker, hradix, rfl⟩ := cutRadix_eq_some_iff.mp hcut
    obtain ⟨sign, digits, m, hsign, hrest, hvalue, rfl⟩ := signedNatural?_eq_some_iff_exists.mp h
    rw [← hradix] at hvalue
    obtain ⟨hsome, hdigits, rfl⟩ := (natural?_form_eq_some_iff hform).mp hvalue
    rw [← hrest]
    cases sign with
    | none => exact Or.inl (.radix hform hmarker hsome hdigits)
    | some sign => exact Or.inr (.intro hform hmarker (hsign sign rfl) hsome hdigits)

/-! ### Texts -/

theorem readWide_eq_some_iff {text : String} {w : WideInteger} :
    readWide text = some w ↔
      IsIntegerLiteral (trim text.toList) w.val ∨ IsSignedRadix (trim text.toList) w.val := by
  rw [readWide, Option.bind_eq_some_iff, ← integerWord?_eq_some_iff]
  constructor
  · rintro ⟨n, hn, hw⟩
    rwa [WideInteger.ofInt?_eq_some_iff.mp hw]
  · exact fun hn ↦ ⟨w.val, hn, WideInteger.ofInt?_eq_some_iff.mpr rfl⟩

/-- A text is read as a wide integer exactly if, without the white space around it, it is an integer
literal or a radix literal with a sign behind the prefix, and the integer is in range. Of these, the
integer literals are numbers, and the others are not. -/
theorem readWide_accepts_integers (text : String) :
    IsTrimmed text.toList (trim text.toList) ∧
      (∀ n : ℤ, (readWide text).map (·.val) = some n ↔
        (IsIntegerLiteral (trim text.toList) n ∨ IsSignedRadix (trim text.toList) n) ∧
          -2 ^ 127 ≤ n ∧ n < 2 ^ 127) ∧
      ∀ w : WideInteger, readWide text = some w →
        (read text ≠ .nan ↔ IsIntegerLiteral (trim text.toList) w.val) ∧
          (read text = .nan ↔ IsSignedRadix (trim text.toList) w.val) := by
  have hlimit : WideInteger.limit = 2 ^ 127 := by norm_num
  refine ⟨isTrimmed_trim _, fun n ↦ ?_, fun w hread ↦ ?_⟩
  · rw [Option.map_eq_some_iff]
    constructor
    · rintro ⟨w, hread, rfl⟩
      exact ⟨readWide_eq_some_iff.mp hread, hlimit ▸ w.lower, hlimit ▸ w.upper⟩
    · rintro ⟨hn, hlower, hupper⟩
      exact ⟨⟨n, hlimit ▸ hlower, hlimit ▸ hupper⟩, readWide_eq_some_iff.mpr hn, rfl⟩
  · rcases readWide_eq_some_iff.mp hread with hliteral | hsigned
    · have hnumber : read text ≠ .nan := (readWord_ne_nan_iff _).mpr hliteral.isNumeral
      exact ⟨iff_of_true hnumber hliteral, iff_of_false hnumber fun hsigned ↦
        hnumber hsigned.readWord_eq_nan⟩
    · have hnan : read text = .nan := hsigned.readWord_eq_nan
      exact ⟨iff_of_false (not_not_intro hnan) fun hliteral ↦
        (readWord_ne_nan_iff _).mpr hliteral.isNumeral hnan, iff_of_true hnan hsigned⟩

/-- A decimal integer with a sign, between white space. -/
theorem readWide_accepts_integers_signed : trim " -12\n".toList = ['-', '1', '2'] ∧
    (readWide " -12\n").map (·.val) = some (-12) ∧ read " -12\n" ≠ .nan := by
  have htext : trim " -12\n".toList = ['-', '1', '2'] := by decide
  have hsign : ∀ c ∈ some '-', c = '+' ∨ c = '-' := by simp
  have hliteral : IsIntegerLiteral (trim " -12\n".toList) (-12) :=
    htext ▸ .decimal hsign (List.cons_ne_nil '1' ['2']) (.cons rfl (.cons rfl .nil))
  obtain ⟨-, hread, hnumber⟩ := readWide_accepts_integers " -12\n"
  have hvalue := (hread (-12)).mpr ⟨Or.inl hliteral, by norm_num, by norm_num⟩
  obtain ⟨w, hw, hval⟩ := Option.map_eq_some_iff.mp hvalue
  exact ⟨htext, hvalue, (hnumber w hw).1.mpr (hval.symm ▸ hliteral)⟩

/-- A sign behind the prefix: the text is read as a wide integer, but it is neither an integer
literal nor a number. -/
theorem readWide_signed_radix : (readWide "0x-5").map (·.val) = some (-5) ∧
    (∀ n, ¬IsIntegerLiteral (trim "0x-5".toList) n) ∧ read "0x-5" = .nan := by
  have hnan : read "0x-5" = .nan := by decide
  exact ⟨by decide, fun n hliteral ↦ (readWord_ne_nan_iff _).mpr hliteral.isNumeral hnan, hnan⟩

end Segmentation.Numeral
