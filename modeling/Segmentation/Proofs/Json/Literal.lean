import Mathlib
import Segmentation.Json.Reader
import Segmentation.Proofs.Text.DigitWord

/-!
# Number literals of JSON

A number literal is an optional minus sign, digits without a superfluous leading zero, an optional
fraction and an optional exponent. `Literal` holds these parts, `Literal.text` writes them down, and
`Literal.decimal` is the exact value that they denote.

The number reader accepts nothing else. `numberLiteral_text` shows that it reads the text of a
literal up to its end, with the result `Literal.number?`, and `exists_literal` that every text it
accepts starts with a literal. `Literal.number?` is the number that the reader makes of the parts:
the digits that fit a machine word are kept, and the result is scaled by a power of ten.
-/

set_option autoImplicit false

namespace Segmentation.Json

open Text

/-- The exponent of a number literal. -/
structure Literal.Exponent where
  marker : Char
  sign : Option Char
  digits : List Char
  marker_eq : marker = 'e' ∨ marker = 'E'
  sign_eq : ∀ c ∈ sign, c = '+' ∨ c = '-'
  digits_ne_nil : digits ≠ []
  isDigits : IsDigits digits

/-- A number literal by its parts. The fraction is empty if there is no point. -/
structure Literal where
  negative : Bool
  whole : List Char
  fraction : List Char
  exponent : Option Literal.Exponent
  whole_ne_nil : whole ≠ []
  whole_isDigits : IsDigits whole
  whole_of_zero : whole.head? = some '0' → whole = ['0']
  fraction_isDigits : IsDigits fraction

namespace Literal

/-! ### Text and value -/

def Exponent.text (exponent : Exponent) : List Char :=
  exponent.marker :: (exponent.sign.toList ++ exponent.digits)

/-- The exponent that the digits denote. -/
def Exponent.value (exponent : Exponent) : ℤ :=
  if exponent.sign = some '-' then -(digitsValue exponent.digits : ℤ)
  else digitsValue exponent.digits

def fractionText (literal : Literal) : List Char :=
  if literal.fraction = [] then [] else '.' :: literal.fraction

def exponentText (literal : Literal) : List Char :=
  match literal.exponent with
  | none => []
  | some exponent => exponent.text

/-- What follows the integer digits. -/
def tailText (literal : Literal) : List Char := literal.fractionText ++ literal.exponentText

/-- A number literal as it is written. -/
def text (literal : Literal) : List Char :=
  (if literal.negative then ['-'] else []) ++ (literal.whole ++ literal.tailText)

def exponentValue (literal : Literal) : ℤ :=
  match literal.exponent with
  | none => 0
  | some exponent => exponent.value

/-- The number that a literal denotes exactly. -/
def decimal (literal : Literal) : Decimal :=
  ⟨literal.negative, digitsValue (literal.whole ++ literal.fraction),
    literal.exponentValue - literal.fraction.length⟩

/-! ### The number that is read -/

/-- The integer digits that fit a machine word, and the number of the others. -/
def wholePart (literal : Literal) : ℕ × ℕ := appendDigits 0 literal.whole

/-- The significand after the fraction, and the number of fraction digits that do not fit. -/
def digitPart (literal : Literal) : ℕ × ℕ :=
  appendDigits literal.wholePart.1 literal.fraction

/-- The power of ten that the digits call for. -/
def shift (literal : Literal) : ℤ :=
  (literal.wholePart.2 : ℤ) - (literal.fraction.length - literal.digitPart.2 : ℕ)

/-- A significand scaled by a power of ten, with a sign. -/
def scaledNumber? (negative : Bool) (significand : ℕ) (exponent : ℤ) : Option Number :=
  (scaled? significand exponent).map fun x ↦ .double (x.signed negative)

/-- The number that the reader makes of a literal; `none` if it is too large. -/
def number? (literal : Literal) : Option Number :=
  match literal.exponent with
  | none =>
    if literal.fraction = [] ∧ literal.wholePart.2 = 0 then
      some (wholeNumber literal.negative literal.wholePart.1)
    else scaledNumber? literal.negative literal.digitPart.1 literal.shift
  | some exponent =>
    if digitsValue exponent.digits ≤ exponentMax then
      scaledNumber? literal.negative literal.digitPart.1 (literal.shift + exponent.value)
    else if literal.digitPart.1 ≠ 0 ∧ exponent.sign ≠ some '-' then none
    else some (.double (Binary64.zero.signed literal.negative))

/-! ### Characters -/

theorem mem_exponentText (literal : Literal) {c : Char} (h : c ∈ literal.exponentText) :
    isDigit c = true ∨ c ∈ ['e', 'E', '+', '-'] := by
  unfold exponentText at h
  split at h
  · exact absurd h List.not_mem_nil
  · rename_i exponent _
    rcases List.mem_cons.mp h with hmarker | h
    · rcases exponent.marker_eq with heq | heq <;> rw [hmarker, heq] <;> simp
    · rcases List.mem_append.mp h with hsign | hdigits
      · rcases exponent.sign_eq c (Option.mem_toList.mp hsign) with heq | heq <;> rw [heq] <;> simp
      · exact Or.inl (exponent.isDigits c hdigits)

theorem mem_fractionText (literal : Literal) {c : Char} (h : c ∈ literal.fractionText) :
    isDigit c = true ∨ c = '.' := by
  unfold fractionText at h
  split at h
  · exact absurd h List.not_mem_nil
  · rcases List.mem_cons.mp h with hpoint | hdigits
    · exact Or.inr hpoint
    · exact Or.inl (literal.fraction_isDigits c hdigits)

/-- A literal has no characters but digits, signs, a point and a marker. -/
theorem mem_text (literal : Literal) {c : Char} (h : c ∈ literal.text) :
    isDigit c = true ∨ c ∈ ['.', 'e', 'E', '+', '-'] := by
  rcases List.mem_append.mp h with hsign | h
  · split at hsign
    · rw [List.mem_singleton.mp hsign]
      exact Or.inr (by simp)
    · exact absurd hsign List.not_mem_nil
  · rcases List.mem_append.mp h with hwhole | htail
    · exact Or.inl (literal.whole_isDigits c hwhole)
    · rcases List.mem_append.mp htail with hfraction | hexponent
      · exact (literal.mem_fractionText hfraction).imp_right fun hpoint ↦ by rw [hpoint]; simp
      · exact (literal.mem_exponentText hexponent).imp_right (List.mem_cons_of_mem _)

/-- The literal does not go on in what follows it. -/
def Ends (literal : Literal) (rest : List Char) : Prop :=
  NoDigit rest ∧ (literal.exponent = none → ∀ c ∈ rest.head?, c ≠ 'e' ∧ c ≠ 'E') ∧
    (literal.exponent = none → literal.fraction = [] → ∀ c ∈ rest.head?, c ≠ '.')

end Literal

/-! ### Reading a literal -/

/-- A reader gives a number that was read up to a place, or a fault if there is none. -/
def Reads (result : Except Fault (Number × List Char)) (number : Option Number)
    (rest : List Char) : Prop :=
  match number with
  | some n => result = .ok (n, rest)
  | none => ∃ fault, result = .error fault

theorem reads_assemble (negative : Bool) (significand : ℕ) (exponent : ℤ) (rest : List Char) :
    Reads (assemble negative significand exponent rest)
      (Literal.scaledNumber? negative significand exponent) rest := by
  unfold assemble Literal.scaledNumber?
  cases scaled? significand exponent with
  | none => exact ⟨_, rfl⟩
  | some x => rfl

/-- The digits of an exponent are read to their end, unless they are too large before. -/
theorem exponentDigits_append {value : ℕ} {word rest : List Char} (hword : IsDigits word)
    (hrest : NoDigit rest) (hvalue : value ≤ exponentMax) :
    if value * 10 ^ word.length + digitsValue word ≤ exponentMax then
      exponentDigits value (word ++ rest) =
        (some (value * 10 ^ word.length + digitsValue word), rest)
    else ∃ later, exponentDigits value (word ++ rest) = (none, later) ∧
      later.dropWhile isDigit = rest := by
  induction word generalizing value with
  | nil =>
    have hsame : value * 10 ^ ([] : List Char).length + digitsValue [] = value := by
      rw [List.length_nil, pow_zero, Nat.mul_one, digitsValue_nil, Nat.add_zero]
    rw [hsame, if_pos hvalue, List.nil_append]
    cases rest with
    | nil => rfl
    | cons c rest =>
      rw [exponentDigits, if_neg]
      rw [hrest c rfl]
      exact Bool.false_ne_true
  | cons c word ih =>
    have hsame : value * 10 ^ (c :: word).length + digitsValue (c :: word) =
        (value * 10 + (c.toNat - 48)) * 10 ^ word.length + digitsValue word := by
      rw [digitsValue_cons, List.length_cons, pow_succ]
      ring
    rw [hsame, List.cons_append, exponentDigits, if_pos hword.head]
    by_cases hnext : exponentMax < value * 10 + (c.toNat - 48)
    · have hlarge : ¬ (value * 10 + (c.toNat - 48)) * 10 ^ word.length + digitsValue word ≤
          exponentMax := by
        refine Nat.not_le.mpr (hnext.trans_le ?_)
        exact (Nat.le_mul_of_pos_right _ (pow_pos (by decide) _)).trans (Nat.le_add_right _ _)
      rw [if_neg hlarge]
      simp only [if_pos hnext]
      exact ⟨_, rfl, dropWhile_word hword.tail hrest⟩
    · simp only [if_neg hnext]
      exact ih hword.tail (Nat.not_lt.mp hnext)

/-- The sign of an exponent is told from its digits. -/
theorem exponentSign_append (exponent : Literal.Exponent) (rest : List Char) :
    exponentSign (exponent.sign.toList ++ exponent.digits ++ rest) =
      (decide (exponent.sign = some '-'), exponent.digits ++ rest) := by
  cases hsign : exponent.sign with
  | none =>
    cases hdigits : exponent.digits with
    | nil => exact absurd hdigits exponent.digits_ne_nil
    | cons c word =>
      have hc : isDigit c = true := (hdigits ▸ exponent.isDigits : IsDigits (c :: word)).head
      simp only [Option.toList_none, List.nil_append, List.cons_append]
      unfold exponentSign
      split
      · rename_i heq
        rw [List.cons.injEq] at heq
        rw [heq.1] at hc
        exact absurd hc (by decide)
      · rename_i heq
        rw [List.cons.injEq] at heq
        rw [heq.1] at hc
        exact absurd hc (by decide)
      · rfl
  | some c =>
    rcases exponent.sign_eq c hsign with rfl | rfl <;> rfl

/-- Reading on after the marker of an exponent. -/
theorem reads_exponentPart (negative : Bool) (significand : ℕ) (shift : ℤ)
    (exponent : Literal.Exponent) {rest : List Char} (hrest : NoDigit rest) :
    Reads (exponentPart negative significand shift
        (exponent.sign.toList ++ exponent.digits ++ rest))
      (if digitsValue exponent.digits ≤ exponentMax then
        Literal.scaledNumber? negative significand (shift + exponent.value)
      else if significand ≠ 0 ∧ exponent.sign ≠ some '-' then none
      else some (.double (Binary64.zero.signed negative))) rest := by
  obtain ⟨c, word, hdigits⟩ := List.exists_cons_of_ne_nil exponent.digits_ne_nil
  have hword : IsDigits (c :: word) := hdigits ▸ exponent.isDigits
  have hread := exponentDigits_append hword hrest (Nat.zero_le exponentMax)
  rw [Nat.zero_mul, Nat.zero_add, ← hdigits] at hread
  simp only [exponentPart, exponentSign_append]
  rw [hdigits, List.cons_append]
  simp only [hword.head, Bool.not_true, Bool.false_eq_true, if_false]
  rw [← List.cons_append, ← hdigits]
  by_cases hfits : digitsValue exponent.digits ≤ exponentMax
  · rw [if_pos hfits] at hread ⊢
    rw [hread]
    have hshift : (if decide (exponent.sign = some '-') then
        shift - (digitsValue exponent.digits : ℤ) else shift + digitsValue exponent.digits) =
        shift + exponent.value := by
      unfold Literal.Exponent.value
      by_cases hsign : exponent.sign = some '-'
      · simp only [hsign, decide_true, if_true]
        ring
      · simp only [hsign, decide_false, Bool.false_eq_true, if_false]
    simp only [hshift]
    exact reads_assemble negative significand _ rest
  · rw [if_neg hfits] at hread ⊢
    obtain ⟨later, hlater, hdrop⟩ := hread
    rw [hlater]
    by_cases hlarge : significand ≠ 0 ∧ exponent.sign ≠ some '-'
    · rw [if_pos hlarge]
      have hdown : significand ≠ 0 ∧ !decide (exponent.sign = some '-') := by
        simpa using hlarge
      simp only [if_pos hdown]
      exact ⟨_, rfl⟩
    · rw [if_neg hlarge]
      have hdown : ¬(significand ≠ 0 ∧ !decide (exponent.sign = some '-')) := by
        simpa using hlarge
      simp only [if_neg hdown, hdrop]
      rfl

/-- Where no exponent follows the fraction digits, the number is complete. -/
theorem afterFraction_end (negative : Bool) (significand : ℕ) (shift : ℤ) {rest : List Char}
    (hmarker : ∀ c ∈ rest.head?, c ≠ 'e' ∧ c ≠ 'E') :
    afterFraction negative significand shift rest =
      assemble negative significand shift rest := by
  cases rest with
  | nil => rfl
  | cons c rest =>
    have hc := hmarker c rfl
    unfold afterFraction
    split
    · rename_i heq
      exact absurd (List.cons.inj heq).1 hc.1
    · rename_i heq
      exact absurd (List.cons.inj heq).1 hc.2
    · rfl

theorem afterFraction_exponent (negative : Bool) (significand : ℕ) (shift : ℤ)
    (exponent : Literal.Exponent) (rest : List Char) :
    afterFraction negative significand shift (exponent.text ++ rest) =
      exponentPart negative significand shift
        (exponent.sign.toList ++ exponent.digits ++ rest) := by
  rw [Literal.Exponent.text, List.cons_append]
  rcases exponent.marker_eq with hmarker | hmarker <;> rw [hmarker] <;> rfl

/-- Reading on after the fraction digits. -/
theorem reads_afterFraction (literal : Literal) {rest : List Char} (hends : literal.Ends rest) :
    Reads (afterFraction literal.negative literal.digitPart.1 literal.shift
        (literal.exponentText ++ rest))
      (match literal.exponent with
      | none => Literal.scaledNumber? literal.negative literal.digitPart.1 literal.shift
      | some exponent =>
        if digitsValue exponent.digits ≤ exponentMax then
          Literal.scaledNumber? literal.negative literal.digitPart.1
            (literal.shift + exponent.value)
        else if literal.digitPart.1 ≠ 0 ∧ exponent.sign ≠ some '-' then none
        else some (.double (Binary64.zero.signed literal.negative))) rest := by
  unfold Literal.exponentText
  cases hexponent : literal.exponent with
  | none =>
    rw [List.nil_append, afterFraction_end _ _ _ (hends.2.1 hexponent)]
    exact reads_assemble _ _ _ rest
  | some exponent =>
    simp only [afterFraction_exponent]
    exact reads_exponentPart _ _ _ exponent hends.1

/-- What follows the fraction digits starts with no digit. -/
theorem noDigit_exponentText (literal : Literal) {rest : List Char} (hends : literal.Ends rest) :
    NoDigit (literal.exponentText ++ rest) := by
  unfold Literal.exponentText
  cases literal.exponent with
  | none => exact hends.1
  | some exponent =>
    intro c hc
    have hmarker : c = exponent.marker := by
      simpa [Literal.Exponent.text, eq_comm] using hc
    rcases exponent.marker_eq with h | h <;> rw [hmarker, h] <;> decide

/-- What follows the integer digits starts with no digit. -/
theorem noDigit_tailText (literal : Literal) {rest : List Char} (hends : literal.Ends rest) :
    NoDigit (literal.tailText ++ rest) := by
  rw [Literal.tailText, Literal.fractionText, List.append_assoc]
  split
  · exact noDigit_exponentText literal hends
  · intro c hc
    have hpoint : c = '.' := by simpa [eq_comm] using hc
    rw [hpoint]
    decide

/-- Where neither a point nor an exponent follows the integer digits, the number is complete. -/
theorem afterInteger_end (negative : Bool) (value left : ℕ) {rest : List Char}
    (hpoint : ∀ c ∈ rest.head?, c ≠ '.') (hmarker : ∀ c ∈ rest.head?, c ≠ 'e' ∧ c ≠ 'E') :
    afterInteger negative value left rest =
      if left = 0 then .ok (wholeNumber negative value, rest)
      else assemble negative value left rest := by
  cases rest with
  | nil => rfl
  | cons c rest =>
    have hc := hmarker c rfl
    unfold afterInteger
    split
    · rename_i heq
      exact absurd (List.cons.inj heq).1 (hpoint c rfl)
    · rename_i heq
      exact absurd (List.cons.inj heq).1 hc.1
    · rename_i heq
      exact absurd (List.cons.inj heq).1 hc.2
    · rfl

theorem afterInteger_exponent (negative : Bool) (value left : ℕ) (exponent : Literal.Exponent)
    (rest : List Char) :
    afterInteger negative value left (exponent.text ++ rest) =
      afterFraction negative value left (exponent.text ++ rest) := by
  rw [Literal.Exponent.text, List.cons_append]
  rcases exponent.marker_eq with hmarker | hmarker <;> rw [hmarker] <;> rfl

/-- Fraction digits are read up to where something else follows. -/
theorem afterInteger_point (negative : Bool) (value left : ℕ) {fraction tail : List Char}
    (hdigits : IsDigits fraction) (hfraction : fraction ≠ []) (htail : NoDigit tail) :
    afterInteger negative value left ('.' :: (fraction ++ tail)) =
      afterFraction negative (appendDigits value fraction).1
        (left - (fraction.length - (appendDigits value fraction).2 : ℕ)) tail := by
  have htake := takeWhile_word hdigits htail
  have hdrop := dropWhile_word hdigits htail
  have hnonempty : fraction.isEmpty = false := by simpa using hfraction
  simp only [afterInteger, fractionPart, htake, hdrop, hnonempty, Bool.false_eq_true, if_false]

/-- Reading on after the integer digits. -/
theorem reads_afterInteger (literal : Literal) {rest : List Char} (hends : literal.Ends rest) :
    Reads (afterInteger literal.negative literal.wholePart.1 literal.wholePart.2
      (literal.tailText ++ rest)) literal.number? rest := by
  have hafter := reads_afterFraction literal hends
  rw [Literal.tailText, Literal.fractionText]
  unfold Literal.number?
  by_cases hfraction : literal.fraction = []
  · have hdigits : literal.digitPart = (literal.wholePart.1, 0) := by
      rw [Literal.digitPart, hfraction, appendDigits]
    have hshift : literal.shift = literal.wholePart.2 := by
      rw [Literal.shift, hfraction, List.length_nil, Nat.zero_sub, Nat.cast_zero, sub_zero]
    rw [hdigits, hshift] at hafter ⊢
    rw [if_pos hfraction, List.nil_append]
    cases hexponent : literal.exponent with
    | none =>
      have htext : literal.exponentText = [] := by rw [Literal.exponentText, hexponent]
      rw [htext, List.nil_append,
        afterInteger_end _ _ _ (hends.2.2 hexponent hfraction) (hends.2.1 hexponent)]
      by_cases hleft : literal.wholePart.2 = 0
      · rw [if_pos hleft, if_pos ⟨hfraction, hleft⟩]
        rfl
      · rw [if_neg hleft, if_neg fun h ↦ hleft h.2]
        exact reads_assemble _ _ _ rest
    | some exponent =>
      have htext : literal.exponentText = exponent.text := by
        rw [Literal.exponentText, hexponent]
      rw [hexponent, htext] at hafter
      rw [htext, afterInteger_exponent]
      exact hafter
  · rw [if_neg hfraction, List.cons_append, List.cons_append, List.append_assoc,
      afterInteger_point _ _ _ literal.fraction_isDigits hfraction
        (noDigit_exponentText literal hends)]
    cases hexponent : literal.exponent with
    | none =>
      rw [hexponent] at hafter
      simp only [hfraction, false_and, if_false]
      exact hafter
    | some exponent =>
      rw [hexponent] at hafter
      exact hafter

/-- Integer digits are read up to where something else follows. -/
theorem unsignedNumber_whole (literal : Literal) {tail : List Char} (htail : NoDigit tail) :
    unsignedNumber literal.negative (literal.whole ++ tail) =
      afterInteger literal.negative literal.wholePart.1 literal.wholePart.2 tail := by
  obtain ⟨c, word, hwhole⟩ := List.exists_cons_of_ne_nil literal.whole_ne_nil
  have hword : IsDigits (c :: word) := hwhole ▸ literal.whole_isDigits
  rw [Literal.wholePart, hwhole, List.cons_append]
  by_cases hzero : c = '0'
  · have hsingle : word = [] := by
      have hone := literal.whole_of_zero (by rw [hwhole, hzero]; rfl)
      rw [hwhole] at hone
      exact (List.cons.inj hone).2
    have hpart : appendDigits 0 ['0'] = (0, 0) := by decide
    rw [hsingle, hzero, List.nil_append, hpart]
    cases tail with
    | nil => rfl
    | cons d tail =>
      have hd : isDigit d = false := htail d rfl
      simp only [unsignedNumber, if_true, hd, Bool.false_eq_true, if_false]
  · have htake := takeWhile_word hword htail
    have hdrop := dropWhile_word hword.tail htail
    rw [List.cons_append] at htake
    simp only [unsignedNumber, if_neg hzero, hword.head, if_true, htake, hdrop]

/-- The text of a literal is read up to its end, with the number that the reader makes of it. -/
theorem numberLiteral_text (literal : Literal) {rest : List Char} (hends : literal.Ends rest) :
    Reads (numberLiteral (literal.text ++ rest)) literal.number? rest := by
  have hread := reads_afterInteger literal hends
  have hwhole := unsignedNumber_whole literal (noDigit_tailText literal hends)
  have hsign : numberLiteral (literal.text ++ rest) =
      unsignedNumber literal.negative (literal.whole ++ (literal.tailText ++ rest)) := by
    rw [Literal.text, List.append_assoc, List.append_assoc]
    cases hnegative : literal.negative with
    | true => rfl
    | false =>
      obtain ⟨c, word, hcons⟩ := List.exists_cons_of_ne_nil literal.whole_ne_nil
      have hc : isDigit c = true := (hcons ▸ literal.whole_isDigits : IsDigits (c :: word)).head
      simp only [Bool.false_eq_true, if_false, List.nil_append, hcons, List.cons_append]
      unfold numberLiteral
      split
      · rename_i heq
        rw [(List.cons.inj heq).1] at hc
        exact absurd hc (by decide)
      · rfl
  rw [hsign, hwhole]
  exact hread

/-! ### What is read is a literal -/

/-- An exponent that is read has an optional sign and digits. -/
theorem exists_exponent {marker : Char} (hmarker : marker = 'e' ∨ marker = 'E') {negative : Bool}
    {significand : ℕ} {shift : ℤ} {text rest : List Char} {n : Number}
    (h : exponentPart negative significand shift text = .ok (n, rest)) :
    ∃ (exponent : Literal.Exponent) (after : List Char),
      marker :: text = exponent.text ++ after ∧ NoDigit after := by
  have hsign : ∃ sign : Option Char, (∀ c ∈ sign, c = '+' ∨ c = '-') ∧
      text = sign.toList ++ (exponentSign text).2 := by
    unfold exponentSign
    split
    · exact ⟨some '+', by simp, rfl⟩
    · exact ⟨some '-', by simp, rfl⟩
    · exact ⟨none, by simp, rfl⟩
  obtain ⟨sign, hsigns, htext⟩ := hsign
  have hdigits : (exponentSign text).2.takeWhile isDigit ≠ [] := by
    simp only [exponentPart] at h
    split at h
    · simp at h
    · rename_i c digits heq
      by_cases hc : isDigit c = true
      · rw [heq, List.takeWhile_cons_of_pos hc]
        exact List.cons_ne_nil _ _
      · rw [if_pos (by simpa using hc)] at h
        simp at h
  refine ⟨⟨marker, sign, (exponentSign text).2.takeWhile isDigit, hmarker, hsigns, hdigits,
    IsDigits.takeWhile _⟩, (exponentSign text).2.dropWhile isDigit, ?_, noDigit_dropWhile _⟩
  rw [Literal.Exponent.text, List.cons_append, List.append_assoc, List.takeWhile_append_dropWhile,
    ← htext]

/-- What is read after the significant digits is an exponent or nothing. -/
theorem exists_exponentText (plain : Literal) {negative : Bool} {significand : ℕ} {shift : ℤ}
    {text rest : List Char} {n : Number} (htext : NoDigit text)
    (h : afterFraction negative significand shift text = .ok (n, rest)) :
    ∃ (exponent : Option Literal.Exponent) (after : List Char),
      text = { plain with exponent := exponent }.exponentText ++ after ∧ NoDigit after ∧
        (exponent = none → ∀ c ∈ after.head?, c ≠ 'e' ∧ c ≠ 'E') := by
  unfold afterFraction at h
  split at h
  · obtain ⟨exponent, after, hparts, hafter⟩ := exists_exponent (Or.inl rfl) h
    exact ⟨some exponent, after, hparts, hafter, fun hnone ↦ absurd hnone (by simp)⟩
  · obtain ⟨exponent, after, hparts, hafter⟩ := exists_exponent (Or.inr rfl) h
    exact ⟨some exponent, after, hparts, hafter, fun hnone ↦ absurd hnone (by simp)⟩
  · rename_i hlower hupper
    refine ⟨none, text, rfl, htext, ?_⟩
    intro _ c hc
    obtain ⟨tail, rfl⟩ := List.head?_eq_some_iff.mp hc
    exact ⟨fun heq ↦ hlower tail (by rw [heq]), fun heq ↦ hupper tail (by rw [heq])⟩

/-- What is read after the integer digits completes a literal. -/
theorem exists_tailText (plain : Literal) {negative : Bool} {value left : ℕ}
    {text rest : List Char} {n : Number} (htext : NoDigit text)
    (h : afterInteger negative value left text = .ok (n, rest)) :
    ∃ (literal : Literal) (after : List Char), literal.negative = plain.negative ∧
      literal.whole = plain.whole ∧ text = literal.tailText ++ after ∧ literal.Ends after := by
  have hnofraction : ∀ (significand : ℕ) (shift : ℤ), (∀ c ∈ text.head?, c ≠ '.') →
      afterFraction negative significand shift text = .ok (n, rest) →
      ∃ (literal : Literal) (after : List Char), literal.negative = plain.negative ∧
        literal.whole = plain.whole ∧ text = literal.tailText ++ after ∧ literal.Ends after := by
    intro significand shift hpoint hread
    obtain ⟨exponent, after, hparts, hafter, hmarker⟩ := exists_exponentText plain htext hread
    refine ⟨{ plain with fraction := [], fraction_isDigits := .nil, exponent := exponent }, after,
      rfl, rfl, hparts, hafter, hmarker, fun hnone _ ↦ ?_⟩
    have hnone' : exponent = none := hnone
    rw [hparts, hnone'] at hpoint
    exact hpoint
  unfold afterInteger at h
  split at h
  · rename_i digits
    simp only [fractionPart] at h
    split at h
    · split at h <;> simp at h
    · rename_i hsome
      have hfraction : digits.takeWhile isDigit ≠ [] := by simpa using hsome
      obtain ⟨exponent, after, hparts, hafter, hmarker⟩ :=
        exists_exponentText plain (noDigit_dropWhile digits) h
      refine ⟨{ plain with
          fraction := digits.takeWhile isDigit
          fraction_isDigits := .takeWhile digits
          exponent := exponent }, after, rfl, rfl, ?_, hafter, hmarker,
        fun _ hnone ↦ absurd hnone hfraction⟩
      have hexponent : digits.dropWhile isDigit =
          Literal.exponentText { plain with exponent := exponent } ++ after := hparts
      have hjoin : digits.takeWhile isDigit ++ digits.dropWhile isDigit = digits :=
        List.takeWhile_append_dropWhile
      rw [hexponent, ← List.append_assoc] at hjoin
      rw [Literal.tailText, Literal.fractionText, if_neg hfraction, List.cons_append,
        List.cons_append]
      exact congrArg _ hjoin.symm
  · exact hnofraction value left (by simp) h
  · exact hnofraction value left (by simp) h
  · rename_i hpoint hlower hupper
    refine ⟨{ plain with fraction := [], fraction_isDigits := .nil, exponent := none }, text,
      rfl, rfl, rfl, htext, ?_, ?_⟩
    · intro _ c hc
      obtain ⟨tail, rfl⟩ := List.head?_eq_some_iff.mp hc
      exact ⟨fun heq ↦ hlower tail (by rw [heq]), fun heq ↦ hupper tail (by rw [heq])⟩
    · intro _ _ c hc
      obtain ⟨tail, rfl⟩ := List.head?_eq_some_iff.mp hc
      exact fun heq ↦ hpoint tail (by rw [heq])

/-- A text whose front is read as a number after its sign starts with a literal. -/
theorem exists_whole {negative : Bool} {text rest : List Char} {n : Number}
    (h : unsignedNumber negative text = .ok (n, rest)) :
    ∃ (literal : Literal) (after : List Char), literal.negative = negative ∧
      text = literal.whole ++ (literal.tailText ++ after) ∧ literal.Ends after := by
  cases text with
  | nil => simp [unsignedNumber] at h
  | cons c digits =>
    by_cases hzero : c = '0'
    · have hdigits : NoDigit digits ∧ afterInteger negative 0 0 digits = .ok (n, rest) := by
        simp only [unsignedNumber, if_pos hzero] at h
        split at h
        · exact ⟨fun _ hc ↦ absurd hc (by simp), h⟩
        · split at h
          · simp at h
          · rename_i hd
            exact ⟨fun e he ↦ Option.some.inj he ▸ eq_false_of_ne_true hd, h⟩
      obtain ⟨literal, after, hnegative, hwhole, htail, hends⟩ := exists_tailText
        ⟨negative, ['0'], [], none, by simp, .cons rfl .nil, fun _ ↦ rfl, .nil⟩ hdigits.1 hdigits.2
      exact ⟨literal, after, hnegative, by rw [hwhole, htail, hzero]; rfl, hends⟩
    · by_cases hc : isDigit c = true
      · simp only [unsignedNumber, if_neg hzero, if_pos hc] at h
        have hhead : (c :: digits.takeWhile isDigit).head? = some '0' →
            c :: digits.takeWhile isDigit = ['0'] :=
          fun heq ↦ absurd (Option.some.inj heq) hzero
        obtain ⟨literal, after, hnegative, hwhole, htail, hends⟩ := exists_tailText
          ⟨negative, c :: digits.takeWhile isDigit, [], none, by simp,
            .cons hc (.takeWhile digits), hhead, .nil⟩ (noDigit_dropWhile digits) h
        refine ⟨literal, after, hnegative, ?_, hends⟩
        rw [hwhole, ← htail, List.cons_append, List.takeWhile_append_dropWhile]
      · simp [unsignedNumber, if_neg hzero, hc] at h

/-- A number is read exactly from a literal, up to its end. -/
theorem exists_literal {text rest : List Char} {n : Number}
    (h : numberLiteral text = .ok (n, rest)) :
    ∃ literal : Literal, text = literal.text ++ rest ∧ literal.Ends rest ∧
      literal.number? = some n := by
  have hshape : ∃ (literal : Literal) (after : List Char), text = literal.text ++ after ∧
      literal.Ends after := by
    unfold numberLiteral at h
    split at h
    all_goals
      obtain ⟨literal, after, hnegative, hparts, hends⟩ := exists_whole h
      refine ⟨literal, after, ?_, hends⟩
      rw [hparts, Literal.text, hnegative]
      simp
  obtain ⟨literal, after, hparts, hends⟩ := hshape
  have hread := numberLiteral_text literal hends
  rw [← hparts, h] at hread
  unfold Reads at hread
  split at hread
  · rename_i m hnumber
    obtain ⟨hsame, hrest⟩ := Prod.mk.inj (Except.ok.inj hread)
    exact ⟨literal, hrest ▸ hparts, hrest ▸ hends, hsame ▸ hnumber⟩
  · obtain ⟨fault, hfault⟩ := hread
    exact absurd hfault (by simp)

end Segmentation.Json
