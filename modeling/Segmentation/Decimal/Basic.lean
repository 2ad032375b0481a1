import Segmentation.Binary64.Rounding

/-!
Decimal numbers of unbounded length, and the double nearest to one. Numbers too large or too small
for any double are recognised by their size first, so that an exponent of a thousand digits costs
no more than a short one.
-/

set_option autoImplicit false

namespace Segmentation

/-- The number `± coefficient · 10 ^ exponent`. -/
structure Decimal where
  negative : Bool
  coefficient : Nat
  exponent : Int
  deriving DecidableEq

/-- The number that a word of decimal digits denotes. -/
def digitsValue (digits : List Char) : Nat :=
  Nat.ofDigitChars 10 digits 0

namespace Decimal

/-- The double nearest to a decimal number, ties to even. A coefficient of `n` bits lies below
`2 ^ n`, and `10 ^ k` above `2 ^ (3 * k)`: past the two limits the answer is infinity or zero. -/
def toBinary64 (d : Decimal) : Binary64 :=
  if d.coefficient = 0 then Binary64.zero.signed d.negative
  else match d.exponent with
    | .ofNat e =>
      if 309 < e then .infinite d.negative
      else Binary64.ofRatio d.negative (d.coefficient * Nat.pow 10 e) 1
    | .negSucc e =>
      if d.coefficient.log2 + 1080 < 3 * (e + 1) then Binary64.zero.signed d.negative
      else Binary64.ofRatio d.negative d.coefficient (Nat.pow 10 (e + 1))

end Decimal

end Segmentation
