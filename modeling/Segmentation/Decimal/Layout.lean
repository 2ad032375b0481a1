import Segmentation.Decimal.Shortest

/-!
How the digits of a decimal number are laid out: positionally, or as a leading digit with an
exponent. Which of the two is chosen, and whether whole numbers keep a point, is a `Style`. Apart
from these, a double can be written with one decimal place: the exact value is rounded, and a tie
goes to the even tenth.
-/

set_option autoImplicit false

namespace Segmentation.Decimal

/-- The conventions of one written form of numbers. -/
structure Style where
  /-- The choice between two shortest forms that are equally near. -/
  tie : Tie
  /-- The least exponent of the leading digit that is written positionally. -/
  lowest : Int
  /-- The first exponent of the leading digit that is too large to be written positionally. -/
  limit : Int
  /-- Whether a whole number keeps a point and a zero. -/
  pointed : Bool

/-- The digits of the coefficient, without leading zeros. -/
def digits (d : Decimal) : List Char := Nat.toDigits 10 d.coefficient

/-- The exponent of the leading digit: the number lies between that power of ten and the next. -/
def leadingExponent (d : Decimal) : Int := d.digits.length + d.exponent - 1

/-- The digits around a point, with zeros where the number has none. -/
def positional (pointed : Bool) (d : Decimal) : List Char :=
  let whole := d.digits.length + d.exponent
  if whole ≤ 0 then '0' :: '.' :: List.replicate (-whole).toNat '0' ++ d.digits
  else if d.exponent < 0 then d.digits.take whole.toNat ++ '.' :: d.digits.drop whole.toNat
  else d.digits ++ List.replicate d.exponent.toNat '0' ++ (if pointed then ['.', '0'] else [])

/-- An integer with its sign, which is written also when it is positive. -/
def signedDigits (n : Int) : List Char :=
  (if n < 0 then '-' else '+') :: Nat.toDigits 10 n.natAbs

/-- The leading digit, the others after a point, and the exponent of the leading digit. -/
def scientific (d : Decimal) : List Char :=
  let mantissa := match d.digits with
    | lead :: next :: rest => lead :: '.' :: next :: rest
    | short => short
  mantissa ++ 'e' :: signedDigits d.leadingExponent

/-- A decimal number in a style. -/
def layout (style : Style) (d : Decimal) : List Char :=
  let body :=
    if style.lowest ≤ d.leadingExponent ∧ d.leadingExponent < style.limit then
      d.positional style.pointed
    else d.scientific
  if d.negative then '-' :: body else body

/-- The number zero in a style, with the sign if asked for. -/
def zeroLayout (style : Style) (negative : Bool) : List Char :=
  (if negative then ['-'] else []) ++ (if style.pointed then ['0', '.', '0'] else ['0'])

/-- The shortest form of a finite magnitude in a style. -/
def write (style : Style) (negative : Bool) (rank : Nat) : List Char :=
  if rank = 0 then zeroLayout style negative
  else layout style (shortest style.tie negative rank)

/-! ### One decimal place -/

/-- The magnitude of a rank in tenths. -/
def tenths (rank : Nat) : Nat :=
  roundHalfEven (Binary64.units rank * 10) Binary64.unitsPerOne

/-- A number of tenths written with a point. -/
def writeTenths (n : Nat) : List Char :=
  Nat.toDigits 10 (n / 10) ++ '.' :: Nat.toDigits 10 (n % 10)

/-- A double with one decimal place. -/
def oneDecimal : Binary64 → List Char
  | .nan => "NaN".toList
  | .infinite negative => (if negative then "-inf" else "inf").toList
  | .finite negative rank =>
    (if negative then ['-'] else []) ++ writeTenths (tenths rank)

end Segmentation.Decimal
