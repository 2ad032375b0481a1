import Segmentation.Binary64.Arithmetic
import Segmentation.Decimal.Layout
import Segmentation.Integer
import Segmentation.Text.Character

/-!
Numbers as text. Filter operands are text, so every comparison with a number reads one first:
blank text is zero, a radix literal is a prefix and digits, a decimal literal has an optional sign,
point and exponent, and anything else is not a number. `write` gives the shortest decimal form,
positional from `1e-6` up to but not including `1e21`.
-/

set_option autoImplicit false

namespace Segmentation.Numeral

open Text

/-! ### Literals -/

/-- A sign cut off the front of a word; no sign is positive. -/
def cutSign : List Char → Bool × List Char
  | '-' :: rest => (true, rest)
  | '+' :: rest => (false, rest)
  | word => (false, word)

/-- A radix prefix cut off the front of a word. -/
def cutRadix : List Char → Option (Nat × List Char)
  | '0' :: c :: digits =>
    if c = 'x' ∨ c = 'X' then some (16, digits)
    else if c = 'o' ∨ c = 'O' then some (8, digits)
    else if c = 'b' ∨ c = 'B' then some (2, digits)
    else none
  | _ => none

/-- The exponent of a decimal literal: absent, or a marker, an optional sign and digits. -/
def exponent? : List Char → Option Int
  | [] => some 0
  | _ :: word =>
    let (negative, digits) := cutSign word
    if !digits.isEmpty && digits.all isDigit then
      some (if negative then -(digitsValue digits : Int) else digitsValue digits)
    else none

/-- The fraction digits of a decimal literal: none, or what follows a point. -/
def fraction : List Char → List Char
  | [] => []
  | _ :: digits => digits

/-- A word as a decimal literal. At least one digit stands before the exponent, on either side of
the point. -/
def decimal? (word : List Char) : Option Decimal :=
  let (negative, body) := cutSign word
  let isMarker := fun c ↦ c == 'e' || c == 'E'
  let mantissa := body.takeWhile (!isMarker ·)
  let whole := mantissa.takeWhile (· != '.')
  let part := fraction (mantissa.dropWhile (· != '.'))
  if (whole ++ part).isEmpty || !(whole ++ part).all isDigit then none
  else (exponent? (body.dropWhile (!isMarker ·))).map fun exponent ↦
    ⟨negative, digitsValue (whole ++ part), exponent - part.length⟩

/-! ### Doubles -/

/-- The value of digits in a radix, gathered in doubles from the left. -/
def gather (radix : Nat) (digits : List Nat) : Binary64 :=
  digits.foldl (fun value digit ↦ (value.mul (.ofNat radix)).add (.ofNat digit)) .zero

/-- The double of a radix literal's digits; NaN if there is none or one is not of the radix. -/
def readRadix (radix : Nat) (word : List Char) : Binary64 :=
  if word.isEmpty then .nan
  else match digits? radix word with
    | some digits => gather radix digits
    | none => .nan

/-- The double that a trimmed word denotes. -/
def readWord (word : List Char) : Binary64 :=
  if word.isEmpty then .zero
  else if word = "Infinity".toList ∨ word = "+Infinity".toList then .infinite false
  else if word = "-Infinity".toList then .infinite true
  else match cutRadix word with
    | some (radix, digits) => readRadix radix digits
    | none =>
      match decimal? word with
      | some d => d.toBinary64
      | none => .nan

/-- The double that a text denotes; NaN if it denotes none. -/
def read (text : String) : Binary64 := readWord (trim text.toList)

/-- The conventions of the shortest form. -/
def style : Decimal.Style := ⟨.up, -6, 21, false⟩

/-- The shortest form of a double. Both zeros are written alike. -/
def write : Binary64 → String
  | .nan => "NaN"
  | .infinite negative => if negative then "-Infinity" else "Infinity"
  | .finite negative rank =>
    String.ofList (Decimal.write style (negative && rank.val != 0) rank)

/-! ### Wide integers -/

/-- Digits of a radix with an optional sign in front. -/
def signedNatural? (radix : Nat) (word : List Char) : Option Int :=
  let (negative, digits) := cutSign word
  (natural? radix digits).map fun n ↦ if negative then -(n : Int) else n

/-- The integer that a trimmed word denotes. The digits after a radix prefix may carry a sign. -/
def integerWord? (word : List Char) : Option Int :=
  if word.isEmpty then some 0
  else match cutRadix word with
    | some (radix, digits) => signedNatural? radix digits
    | none => signedNatural? 10 word

/-- The wide integer that a text denotes, if it is an integer literal in range. -/
def readWide (text : String) : Option WideInteger :=
  (integerWord? (trim text.toList)).bind WideInteger.ofInt?

/-- The position that a text denotes: digits with an optional plus sign, within a machine word. -/
def index? (text : String) : Option Nat :=
  let digits := match text.toList with
    | '+' :: rest => rest
    | word => word
  (natural? 10 digits).filter (· ≤ Word.unsignedMax)

end Segmentation.Numeral
