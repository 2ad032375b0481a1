import Mathlib
import Segmentation.Proofs.Binary64.Powers
import Segmentation.Proofs.Numeral.Acceptance
import Segmentation.Proofs.Numeral.Integer

/-!
# The doubles of radix literals

The digits of a radix literal are gathered in doubles from the left. All radices are powers of two,
so only the additions round. As long as the value stays below `2 ^ 53` nothing is rounded, and the
digit that brings it to `2 ^ 53` rounds it once. Every further digit is less than half the distance
to the next double, and is lost. So a literal is read as if all digits behind were zeros: `leading`
is the number that is left (`gather_eq`), and the double is the one nearest to it.

This is not always the double nearest to the number itself. `ofNat_leading_eq_iff` says when it is:
unless the leading part lies on the middle between two doubles and is rounded down from there, while
a digit behind is not zero. Then the double is the one just below the nearest.
-/

set_option autoImplicit false

namespace Segmentation.Numeral

open Text Binary64

/-! ### The digits that count -/

/-- The weight of the digit that brings the value of the digits so far to `2 ^ 53`, or of the last
digit if none does. -/
def lastWeight (radix n : ℕ) : ℕ := radix ^ Nat.log radix (n / 2 ^ 53)

/-- The number with zeros for the digits behind the one that brings it to `2 ^ 53`. -/
def leading (radix n : ℕ) : ℕ := n / lastWeight radix n * lastWeight radix n

section Digits

variable {radix n digit : ℕ}

theorem lastWeight_of_lt (h : n < 2 ^ 53 * radix) : lastWeight radix n = 1 := by
  rw [lastWeight, Nat.log_of_lt (Nat.div_lt_of_lt_mul h), pow_zero]

theorem leading_of_lt (h : n < 2 ^ 53 * radix) : leading radix n = n := by
  rw [leading, lastWeight_of_lt h, Nat.div_one, Nat.mul_one]

/-- Without its last digit, a number is the one before. -/
theorem append_div_radix (hdigit : digit < radix) : (n * radix + digit) / radix = n := by
  rw [Nat.mul_comm, Nat.mul_add_div (Nat.zero_lt_of_lt hdigit), Nat.div_eq_of_lt hdigit,
    Nat.add_zero]

/-- Behind a number that has reached `2 ^ 53`, a digit more shifts the digit that counts last. -/
theorem lastWeight_append (hradix : 1 < radix) (hlarge : 2 ^ 53 ≤ n) (hdigit : digit < radix) :
    lastWeight radix (n * radix + digit) = lastWeight radix n * radix := by
  have hrest : (n * radix + digit) / 2 ^ 53 / radix = n / 2 ^ 53 := by
    rw [Nat.div_div_eq_div_mul, Nat.mul_comm (2 ^ 53), ← Nat.div_div_eq_div_mul,
      append_div_radix hdigit]
  have hreached : radix ≤ (n * radix + digit) / 2 ^ 53 := by
    rw [Nat.le_div_iff_mul_le (Nat.two_pow_pos 53), Nat.mul_comm]
    exact (Nat.mul_le_mul_right radix hlarge).trans (Nat.le_add_right _ digit)
  have hpos := Nat.log_pos hradix hreached
  have hlog := Nat.log_div_base radix ((n * radix + digit) / 2 ^ 53)
  rw [hrest] at hlog
  rw [lastWeight, lastWeight, hlog, ← pow_succ, Nat.sub_add_cancel hpos]

theorem leading_append (hradix : 1 < radix) (hlarge : 2 ^ 53 ≤ n) (hdigit : digit < radix) :
    leading radix (n * radix + digit) = leading radix n * radix := by
  rw [leading, leading, lastWeight_append hradix hlarge hdigit, Nat.mul_comm (lastWeight radix n),
    ← Nat.div_div_eq_div_mul, append_div_radix hdigit, Nat.mul_comm radix, Nat.mul_assoc]

/-- The digits that count reach `2 ^ 53` if the number does. -/
theorem le_leading (hradix : 0 < radix) (hlarge : 2 ^ 53 ≤ n) :
    2 ^ 53 * lastWeight radix n ≤ leading radix n := by
  have hweight : lastWeight radix n ≤ n / 2 ^ 53 :=
    Nat.pow_log_le_self radix (Nat.div_pos hlarge (Nat.two_pow_pos 53)).ne'
  have hquotient : 2 ^ 53 ≤ n / lastWeight radix n := by
    have hpos : 0 < lastWeight radix n := Nat.pow_pos hradix
    rw [Nat.le_div_iff_mul_le hpos, Nat.mul_comm]
    exact (Nat.le_div_iff_mul_le (Nat.two_pow_pos 53)).mp hweight
  exact Nat.mul_le_mul_right _ hquotient

end Digits

/-! ### Gathering digits -/

section Gathering

variable {exponent n digit : ℕ}

/-- As long as nothing has been rounded, a digit more is rounded once. -/
theorem mulAdd_of_lt (hexponent : exponent ≤ 53) (hdigit : digit < 2 ^ exponent)
    (hsmall : n < 2 ^ 53) :
    ((ofNat n).mul (ofNat (2 ^ exponent))).add (ofNat digit) =
      ofNat (n * 2 ^ exponent + digit) := by
  have hbits : 2 ^ exponent ≤ 2 ^ 53 := Nat.pow_le_pow_right Nat.two_pos hexponent
  have hshifted : Holds ((ofNat n).mul (ofNat (2 ^ exponent))) (n * 2 ^ exponent) := by
    rw [mul_eq_ofRatio (holds_short hsmall.le) (holds_short hbits)]
    exact holds_ofNat hsmall.le (hexponent.trans (by decide))
  rw [add_eq_ofRatio hshifted (holds_short (hdigit.le.trans hbits)), ofNat]

/-- Beside a number that has reached `2 ^ 53`, a digit more only shifts the double. -/
theorem mulAdd_of_le (hexponent : exponent ≤ 53) (hdigit : digit < 2 ^ exponent)
    (hlarge : 2 ^ 53 ≤ n) :
    ((ofNat n).mul (ofNat (2 ^ exponent))).add (ofNat digit) = ofNat (n * 2 ^ exponent) := by
  have hbits : 2 ^ exponent ≤ 2 ^ 53 := Nat.pow_le_pow_right Nat.two_pos hexponent
  have hunits := le_units_nearestRank (Nat.mul_le_mul_right unitsPerOne hlarge)
  have hnormal := binade_lt_of_le_units hunits
  have hshifted := nearestRank_mul_pow Nat.one_pos hnormal exponent
  rw [Nat.mul_right_comm] at hshifted
  have hkept : 2 ^ (53 + exponent) * unitsPerOne ≤
      units (nearestRank (n * unitsPerOne) 1 + exponent * binade) := by
    rw [units_add_binade hnormal.le, pow_add, Nat.mul_right_comm]
    exact Nat.mul_le_mul_right _ hunits
  rw [ofNat_eq_ofRank n, ofNat_eq_ofRank (n * 2 ^ exponent), hshifted,
    mul_ofNat_pow hnormal.le (hexponent.trans (by decide))]
  exact add_ofNat_of_lt hkept hdigit (hdigit.le.trans hbits)

/-- One step of gathering digits keeps the double of the leading digits. -/
theorem mulAdd_leading (hpos : 0 < exponent) (hexponent : exponent ≤ 53)
    (hdigit : digit < 2 ^ exponent) :
    ((ofNat (leading (2 ^ exponent) n)).mul (ofNat (2 ^ exponent))).add (ofNat digit) =
      ofNat (leading (2 ^ exponent) (n * 2 ^ exponent + digit)) := by
  have hradix : 0 < 2 ^ exponent := Nat.two_pow_pos exponent
  rcases Nat.lt_or_ge n (2 ^ 53) with hsmall | hlarge
  · have hself : n < 2 ^ 53 * 2 ^ exponent := hsmall.trans_le (Nat.le_mul_of_pos_right _ hradix)
    have hnext : n * 2 ^ exponent + digit < 2 ^ 53 * 2 ^ exponent :=
      calc n * 2 ^ exponent + digit < n * 2 ^ exponent + 2 ^ exponent := by omega
        _ = (n + 1) * 2 ^ exponent := (Nat.succ_mul n _).symm
        _ ≤ 2 ^ 53 * 2 ^ exponent := Nat.mul_le_mul_right _ hsmall
    rw [leading_of_lt hself, leading_of_lt hnext]
    exact mulAdd_of_lt hexponent hdigit hsmall
  · have hleading : 2 ^ 53 ≤ leading (2 ^ exponent) n :=
      (Nat.le_mul_of_pos_right _ (Nat.pow_pos hradix)).trans (le_leading hradix hlarge)
    rw [leading_append (Nat.one_lt_two_pow hpos.ne') hlarge hdigit]
    exact mulAdd_of_le hexponent hdigit hleading

theorem gather_append (radix : ℕ) (digits : List ℕ) (digit : ℕ) : gather radix (digits ++ [digit]) =
    ((gather radix digits).mul (ofNat radix)).add (ofNat digit) := by
  rw [gather, List.foldl_append]
  rfl

/-- The double of a word of digits is the one nearest to the number that its leading digits make. -/
theorem gather_eq (hpos : 0 < exponent) (hexponent : exponent ≤ 53) {digits : List ℕ}
    (hdigits : ∀ digit ∈ digits, digit < 2 ^ exponent) :
    gather (2 ^ exponent) digits =
      ofNat (leading (2 ^ exponent) (ofDigits (2 ^ exponent) digits)) := by
  induction digits using List.reverseRecOn with
  | nil =>
    have hzero : ofDigits (2 ^ exponent) [] = 0 := rfl
    have hempty : gather (2 ^ exponent) [] = zero := rfl
    rw [hzero, hempty, leading_of_lt (Nat.mul_pos (Nat.two_pow_pos 53) (Nat.two_pow_pos _)), ofNat,
      ofRatio_zero, signed_false]
  | append_singleton digits digit ih =>
    have hlast : digit < 2 ^ exponent := hdigits digit (by simp)
    have hfront := ih fun digit hmem ↦ hdigits digit (List.mem_append_left _ hmem)
    rw [gather_append, ofDigits_append, hfront]
    exact mulAdd_leading hpos hexponent hlast

end Gathering

/-! ### When the double is the nearest -/

section Nearest

variable {exponent n : ℕ}

/-- The digits behind the leading ones stay below the last bit of the number. -/
theorem exists_digits_behind (hne : leading (2 ^ exponent) n ≠ n) : ∃ bits extra,
    n = leading (2 ^ exponent) n + extra ∧ 2 ^ 53 * 2 ^ bits ≤ leading (2 ^ exponent) n ∧
      2 ^ bits ∣ leading (2 ^ exponent) n ∧ 0 < extra ∧ extra < 2 ^ bits := by
  have hradix : 0 < 2 ^ exponent := Nat.two_pow_pos exponent
  have hlarge : 2 ^ 53 ≤ n := by
    by_contra hsmall
    refine hne (leading_of_lt ?_)
    exact (Nat.lt_of_not_le hsmall).trans_le (Nat.le_mul_of_pos_right _ hradix)
  obtain ⟨bits, hweight⟩ : ∃ bits, 2 ^ bits = lastWeight (2 ^ exponent) n :=
    ⟨_, pow_mul 2 exponent _⟩
  have hsplit : n = leading (2 ^ exponent) n + n % lastWeight (2 ^ exponent) n :=
    (Nat.div_add_mod' n _).symm
  refine ⟨bits, _, hsplit, ?_, ?_, ?_, ?_⟩
  · rw [hweight]
    exact le_leading hradix hlarge
  · rw [hweight]
    exact Nat.dvd_mul_left _ _
  · refine Nat.pos_of_ne_zero fun hzero ↦ hne ?_
    rw [hzero, Nat.add_zero] at hsplit
    exact hsplit.symm
  · rw [hweight]
    exact Nat.mod_lt n (Nat.pow_pos hradix)

/-- If the leading digits lie on a middle and round down, any digit behind makes the double too
small. -/
theorem ofNat_of_isLowerTie (hne : leading (2 ^ exponent) n ≠ n)
    (h : IsLowerTie (leading (2 ^ exponent) n)) :
    ∃ rank : Fin rankBound, ofNat (leading (2 ^ exponent) n) = .finite false rank ∧
      ofNat n = ofRank false (rank + 1) := by
  obtain ⟨bits, extra, hsplit, hlarge, hdvd, hpos, hextra⟩ := exists_digits_behind hne
  have hcase := ofNat_add_of_isLowerTie hlarge hdvd hpos hextra h
  rwa [← hsplit] at hcase

/-- The double of the leading digits is the nearest, unless they lie on a middle that is rounded
down and a digit behind is not zero. -/
theorem ofNat_leading_eq_iff : ofNat (leading (2 ^ exponent) n) = ofNat n ↔
    leading (2 ^ exponent) n = n ∨ ¬IsLowerTie (leading (2 ^ exponent) n) := by
  by_cases hne : leading (2 ^ exponent) n = n
  · rw [hne]
    simp
  by_cases htie : IsLowerTie (leading (2 ^ exponent) n)
  · obtain ⟨rank, hleading, hself⟩ := ofNat_of_isLowerTie hne htie
    refine iff_of_false ?_ (by simp [hne, htie])
    rw [hleading, hself, ofRank]
    split
    · simp [Fin.ext_iff]
    · simp
  · obtain ⟨bits, extra, hsplit, hlarge, hdvd, hpos, hextra⟩ := exists_digits_behind hne
    have hcase := ofNat_add_of_not_isLowerTie hlarge hdvd hpos hextra htie
    rw [← hsplit] at hcase
    exact iff_of_true hcase.symm (Or.inr htie)

end Nearest

/-! ### Radix literals -/

/-- Every radix is a power of two. -/
theorem exists_radix_eq {form : RadixForm} (hform : form ∈ radixForms) :
    ∃ exponent, 0 < exponent ∧ exponent ≤ 53 ∧ form.radix = 2 ^ exponent := by
  fin_cases hform
  · exact ⟨4, by decide, by decide, rfl⟩
  · exact ⟨3, by decide, by decide, rfl⟩
  · exact ⟨1, by decide, by decide, rfl⟩

theorem read_toString_nat (n : ℕ) : read (toString n) = ofNat n :=
  read_toString n

/-- A radix literal is read as the double nearest to the number that its leading digits make. -/
theorem readRadix_of_natural? {form : RadixForm} (hform : form ∈ radixForms) {word : List Char}
    {n : ℕ} (hvalue : natural? form.radix word = some n) :
    readRadix form.radix word = ofNat (leading form.radix n) := by
  obtain ⟨exponent, hpos, hexponent, hradix⟩ := exists_radix_eq hform
  unfold natural? at hvalue
  split at hvalue
  · exact absurd hvalue (by simp)
  · rename_i hsome
    obtain ⟨digits, hdigits, rfl⟩ := Option.map_eq_some_iff.mp hvalue
    have hbelow := lt_of_mem_digits? hdigits
    simp only [readRadix, if_neg hsome, hdigits]
    rw [hradix] at hbelow ⊢
    exact gather_eq hpos hexponent hbelow

/-- The two spellings of a number, with a radix prefix and in decimal digits. The decimal digits
give the nearest double. The radix literal gives the double nearest to its leading digits, which is
the same one unless these lie on a middle that is rounded down and a digit behind is not zero: then
it is the one just below. As long as only the last digit reaches `2 ^ 53`, there is none behind. -/
theorem read_radixLiteral {form : RadixForm} (hform : form ∈ radixForms) {marker : Char}
    (hmarker : marker ∈ form.markers) {digits : List Char} (hsome : digits ≠ [])
    (hdigits : ∀ c ∈ digits, c ∈ form.digits) {n : ℕ} (hvalue : form.value digits = n)
    {text : String} (htext : trim text.toList = '0' :: marker :: digits) :
    (∃ rank, IsNearest rank (n * unitsPerOne) 1 ∧ read (toString n) = ofRank false rank) ∧
      read text = ofNat (leading form.radix n) ∧
      (read text = read (toString n) ↔
        leading form.radix n = n ∨ ¬IsLowerTie (leading form.radix n)) ∧
      (read text ≠ read (toString n) → ∃ rank : Fin rankBound,
        read text = .finite false rank ∧ read (toString n) = ofRank false (rank + 1)) ∧
      (n < 2 ^ 53 * form.radix → read text = read (toString n)) := by
  obtain ⟨exponent, -, -, hradix⟩ := exists_radix_eq hform
  have hnatural := (natural?_form_eq_some_iff hform).mpr ⟨hsome, hdigits, hvalue⟩
  have hread : read text = ofNat (leading form.radix n) := by
    rw [read, htext, readWord_of_cutRadix (cutRadix_radixLiteral hform hmarker digits),
      readRadix_of_natural? hform hnatural]
  refine ⟨⟨_, isNearest_nearestRank _ Nat.one_pos, read_toString_nat n⟩, hread, ?_, ?_, ?_⟩
  · rw [hread, read_toString_nat, hradix]
    exact ofNat_leading_eq_iff
  · rw [hread, read_toString_nat, hradix, Ne, ofNat_leading_eq_iff, not_or, not_not]
    rintro ⟨hne, htie⟩
    exact ofNat_of_isLowerTie hne htie
  · intro hsmall
    rw [hread, read_toString_nat, leading_of_lt hsmall]

/-- The form with the markers `x` and `X`. -/
def hexadecimal : RadixForm := radixForms[0]

/-- A small number in capital and small letters, with zeros in front and white space around. -/
theorem read_radixLiteral_padded :
    hexadecimal.value "00fF".toList = 255 ∧
      trim " 0X00fF\t".toList = '0' :: 'X' :: "00fF".toList ∧
      read " 0X00fF\t" = read (toString 255) := by
  have hform : hexadecimal ∈ radixForms := by decide
  have hdigits : ∀ c ∈ "00fF".toList, c ∈ hexadecimal.digits := by
    simp [hexadecimal, radixForms]
  have hvalue : hexadecimal.value "00fF".toList = 255 := by decide
  have htext : trim " 0X00fF\t".toList = '0' :: 'X' :: "00fF".toList := by decide
  obtain ⟨-, -, -, -, hsame⟩ :=
    read_radixLiteral hform (by decide) (by decide) hdigits hvalue htext
  exact ⟨hvalue, htext, hsame (by decide)⟩

/-- The number `2 ^ 57 + 24` in hexadecimal: the digit `1` leaves the leading digits on the middle
above `2 ^ 57`, which is rounded down, and the `8` behind is lost. The nearest double is
`2 ^ 57 + 32`. -/
theorem radixLiteral_below_nearest :
    hexadecimal.value "200000000000018".toList = 144115188075855896 ∧
      trim "0x200000000000018".toList = '0' :: 'x' :: "200000000000018".toList ∧
      read "0x200000000000018" = ofNat 144115188075855872 ∧
      read (toString 144115188075855896) = ofNat 144115188075855904 ∧
      read "0x200000000000018" ≠ read (toString 144115188075855896) := by
  decide +kernel

end Segmentation.Numeral
