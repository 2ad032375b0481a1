/-!
Classes of characters. White space has the sense of the Unicode property: a byte order mark and a
zero-width space are not white space. Digits are those of a radix up to sixteen; letters stand for
the digits from ten on, in either case.
-/

set_option autoImplicit false

namespace Segmentation.Text

/-! ### White space -/

/-- The characters with the property White_Space. -/
def isBlank (c : Char) : Bool :=
  let code := c.toNat
  (0x9 ≤ code && code ≤ 0xd) || code == 0x20 || code == 0x85 || code == 0xa0 || code == 0x1680 ||
    (0x2000 ≤ code && code ≤ 0x200a) || code == 0x2028 || code == 0x2029 || code == 0x202f ||
    code == 0x205f || code == 0x3000

/-- A text without the white space at its start. -/
def trimStart (text : List Char) : List Char := text.dropWhile isBlank

/-- A text without the white space at its end. -/
def trimEnd (text : List Char) : List Char := (text.reverse.dropWhile isBlank).reverse

/-- A text without the white space around it. -/
def trim (text : List Char) : List Char := trimEnd (trimStart text)

/-- A text of white space only. -/
def isBlankText (text : List Char) : Bool := text.all isBlank

/-! ### Digits -/

/-- The ASCII decimal digits. -/
def isDigit (c : Char) : Bool := '0' ≤ c && c ≤ '9'

/-- The value of a character as a hexadecimal digit. -/
def hexValue? (c : Char) : Option Nat :=
  if '0' ≤ c ∧ c ≤ '9' then some (c.toNat - 48)
  else if 'a' ≤ c ∧ c ≤ 'f' then some (c.toNat - 87)
  else if 'A' ≤ c ∧ c ≤ 'F' then some (c.toNat - 55)
  else none

/-- The value of a character as a digit of a radix. -/
def digit? (radix : Nat) (c : Char) : Option Nat :=
  (hexValue? c).filter (· < radix)

/-- The values of a word of digits, if it consists of nothing else. -/
def digits? (radix : Nat) (word : List Char) : Option (List Nat) :=
  word.mapM (digit? radix)

/-- The number that a list of digit values denotes in a radix. -/
def ofDigits (radix : Nat) (digits : List Nat) : Nat :=
  digits.foldl (fun value digit ↦ value * radix + digit) 0

/-- The number that a non-empty word of digits denotes. -/
def natural? (radix : Nat) (word : List Char) : Option Nat :=
  if word.isEmpty then none else (digits? radix word).map (ofDigits radix)

end Segmentation.Text
