import Segmentation.Binary64.Arithmetic
import Segmentation.Integer
import Segmentation.Json.Fault
import Segmentation.Text.Character

/-!
Reading the parts of JSON that hold no other values: blanks, words, strings and numbers. A scan
takes the rest of the text and gives a result with what is left after it. Scans that repeat take a
limit on the repetitions; the number of characters of the text is always enough.

A fractional number is not rounded once: its leading digits that fit a machine word are turned into
a double, which is then multiplied or divided by a power of ten.
-/

set_option autoImplicit false

namespace Segmentation.Json

open Text

/-- Reading from the front of a text. -/
abbrev Scan (α : Type) := List Char → Except Fault (α × List Char)

/-- The blanks of JSON. -/
def isSpace (c : Char) : Bool := c == ' ' || c == '\t' || c == '\n' || c == '\r'

def skipSpace (text : List Char) : List Char := text.dropWhile isSpace

/-- The remaining characters of a word whose first character was seen. -/
def word : List Char → List Char → Except Fault (List Char)
  | [], text => .ok text
  | _ :: _, [] => .error (.atEnd .endInValue)
  | expected :: more, c :: rest =>
    if c = expected then word more rest else .error (.upon .expectedWord (c :: rest))

/-! ### Strings -/

/-- The code unit of the four hexadecimal digits of an escape. -/
def codeUnit? (a b c d : Char) : Option Nat :=
  (digits? 16 [a, b, c, d]).map (ofDigits 16)

/-- Four bytes are taken before their digits are looked at. -/
def codeUnit : Scan Nat
  | a :: b :: c :: d :: rest =>
    match codeUnit? a b c d with
    | some unit => .ok (unit, rest)
    | none => .error ⟨.invalidEscape, byteCount (a :: b :: c :: d :: rest) - 4⟩
  | short =>
    if byteCount short < 4 then .error (.atEnd .endInString)
    else .error ⟨.invalidEscape, byteCount short - 4⟩

def isHighSurrogate (unit : Nat) : Bool := 0xd800 ≤ unit && unit < 0xdc00

def isLowSurrogate (unit : Nat) : Bool := 0xdc00 ≤ unit && unit < 0xe000

/-- The character of a surrogate pair. -/
def pairedChar (high low : Nat) : Char :=
  Char.ofNat ((high - 0xd800) * 0x400 + (low - 0xdc00) + 0x10000)

/-- The marker in front of the second half of a surrogate pair. -/
def pairMarker : List Char → Except Fault (List Char)
  | [] => .error (.atEnd .endInString)
  | c :: rest =>
    if c ≠ '\\' then .error (.upon .unpairedSurrogate (c :: rest))
    else match rest with
      | [] => .error (.atEnd .endInString)
      | d :: rest =>
        if d ≠ 'u' then .error (.upon .unpairedSurrogate (d :: rest)) else .ok rest

/-- The character of an escape by number. -/
def numberedEscape : Scan Char := fun text ↦ do
  let (unit, rest) ← codeUnit text
  if isLowSurrogate unit then .error (.before .loneSurrogate rest)
  else if isHighSurrogate unit then do
    let (low, rest) ← codeUnit (← pairMarker rest)
    if isLowSurrogate low then .ok (pairedChar unit low, rest)
    else .error (.before .loneSurrogate rest)
  else .ok (Char.ofNat unit, rest)

/-- The characters with an escape of their own. -/
def namedEscape? (c : Char) : Option Char :=
  if c = '"' ∨ c = '\\' ∨ c = '/' then some c
  else if c = 'b' then some (Char.ofNat 8)
  else if c = 'f' then some (Char.ofNat 12)
  else if c = 'n' then some '\n'
  else if c = 'r' then some '\r'
  else if c = 't' then some '\t'
  else none

/-- The character of an escape, after the backslash. -/
def escape : Scan Char
  | [] => .error (.atEnd .endInString)
  | c :: rest =>
    match namedEscape? c with
    | some plain => .ok (plain, rest)
    | none =>
      if c = 'u' then numberedEscape rest else .error (.upon .invalidEscape (c :: rest))

/-- The characters of a string up to its closing quote. -/
def stringBody : Nat → Scan (List Char)
  | 0, _ => .error (.atEnd .endInString)
  | _ + 1, [] => .error (.atEnd .endInString)
  | limit + 1, c :: rest =>
    if c = '"' then .ok ([], rest)
    else if c = '\\' then do
      let (plain, rest) ← escape rest
      let (more, rest) ← stringBody limit rest
      .ok (plain :: more, rest)
    else if c.toNat < 0x20 then .error (.upon .controlCharacter (c :: rest))
    else do
      let (more, rest) ← stringBody limit rest
      .ok (c :: more, rest)

/-- A string, after its opening quote. -/
def stringTail (limit : Nat) : Scan String := fun text ↦ do
  let (body, rest) ← stringBody limit text
  .ok (String.ofList body, rest)

/-! ### Numbers -/

/-- The largest exponent that is kept while reading, which is `2 ^ 31 - 1`. -/
def exponentMax : Nat := 0x7fffffff

/-- Digits appended to a number as long as it fits a machine word, and the number of digits left
over. -/
def appendDigits (value : Nat) : List Char → Nat × Nat
  | [] => (value, 0)
  | c :: rest =>
    let next := value * 10 + (c.toNat - 48)
    if Word.unsignedMax < next then (value, rest.length + 1) else appendDigits next rest

/-- A power of ten as a double. -/
def powerOfTen (exponent : Nat) : Binary64 := .ofRatio false (Nat.pow 10 exponent) 1

/-- Repeated division by `1e308`, as long as something is left. -/
def shrink : Nat → Binary64 → Binary64
  | 0, x => x
  | steps + 1, x => if x.isZero then x else shrink steps (x.div (powerOfTen 308))

/-- A whole number scaled by a power of ten; `none` if the result is infinite. -/
def scaled? (significand : Nat) (exponent : Int) : Option Binary64 :=
  let x := Binary64.ofNat significand
  match exponent with
  | .ofNat e =>
    if x.isZero then some x
    else if 308 < e then none
    else match x.mul (powerOfTen e) with
      | .infinite _ => none
      | product => some product
  | .negSucc e =>
    let steps := e / 308
    some ((shrink steps x).div (powerOfTen (e + 1 - 308 * steps)))

/-- A double made from its parts, or the complaint that it is too large. -/
def assemble (negative : Bool) (significand : Nat) (exponent : Int) : Scan Number := fun rest ↦
  match scaled? significand exponent with
  | some x => .ok (.double (x.signed negative), rest)
  | none => .error (.before .numberOutOfRange rest)

/-- The digits of an exponent, up to the one that makes it too large. -/
def exponentDigits (value : Nat) : List Char → Option Nat × List Char
  | [] => (some value, [])
  | c :: rest =>
    if isDigit c then
      let next := value * 10 + (c.toNat - 48)
      if exponentMax < next then (none, rest) else exponentDigits next rest
    else (some value, c :: rest)

/-- The sign of an exponent; no sign is positive. -/
def exponentSign : List Char → Bool × List Char
  | '+' :: rest => (false, rest)
  | '-' :: rest => (true, rest)
  | text => (false, text)

/-- The rest of a number after its exponent marker. An exponent past all bounds makes the number
zero or too large without being read to its end. -/
def exponentPart (negative : Bool) (significand : Nat) (shift : Int) : Scan Number := fun text ↦
  let (down, digits) := exponentSign text
  match digits with
  | [] => .error (.atEnd .endInValue)
  | c :: rest =>
    if !isDigit c then .error (.upon .invalidNumber (c :: rest))
    else match exponentDigits 0 (c :: rest) with
      | (some value, rest) =>
        assemble negative significand (if down then shift - value else shift + value) rest
      | (none, rest) =>
        if significand ≠ 0 ∧ !down then .error (.before .numberOutOfRange rest)
        else .ok (.double (Binary64.zero.signed negative), rest.dropWhile isDigit)

/-- The rest of a number after its significant digits, of which none can follow. -/
def afterFraction (negative : Bool) (significand : Nat) (shift : Int) : Scan Number
  | 'e' :: rest => exponentPart negative significand shift rest
  | 'E' :: rest => exponentPart negative significand shift rest
  | text => assemble negative significand shift text

/-- The rest of a number after its point. -/
def fractionPart (negative : Bool) (significand : Nat) (shift : Int) : Scan Number := fun text ↦
  let digits := text.takeWhile isDigit
  let rest := text.dropWhile isDigit
  if digits.isEmpty then
    match rest with
    | [] => .error (.atEnd .endInValue)
    | _ :: _ => .error (.upon .invalidNumber rest)
  else
    let (value, left) := appendDigits significand digits
    afterFraction negative value (shift - (digits.length - left : Nat)) rest

/-- A whole number without point or exponent. Minus zero is a double, and so is a negative number
too large for a signed machine word. -/
def wholeNumber (negative : Bool) (value : Nat) : Number :=
  if !negative then .integer value
  else if value ≠ 0 ∧ Word.isSigned (-(value : Int)) then .integer (-(value : Int))
  else .double ((Binary64.ofNat value).signed true)

/-- The rest of a number after its integer digits, of which some may have been left over. -/
def afterInteger (negative : Bool) (value left : Nat) : Scan Number
  | '.' :: rest => fractionPart negative value left rest
  | 'e' :: rest => exponentPart negative value left rest
  | 'E' :: rest => exponentPart negative value left rest
  | text =>
    if left = 0 then .ok (wholeNumber negative value, text) else assemble negative value left text

/-- A number after its sign. -/
def unsignedNumber (negative : Bool) : Scan Number
  | [] => .error (.atEnd .endInValue)
  | c :: rest =>
    if c = '0' then
      match rest with
      | [] => afterInteger negative 0 0 []
      | d :: _ =>
        if isDigit d then .error (.upon .invalidNumber rest) else afterInteger negative 0 0 rest
    else if isDigit c then
      let (value, left) := appendDigits 0 ((c :: rest).takeWhile isDigit)
      afterInteger negative value left (rest.dropWhile isDigit)
    else .error (.upon .invalidNumber (c :: rest))

/-- A number. -/
def numberLiteral : Scan Number
  | '-' :: rest => unsignedNumber true rest
  | text => unsignedNumber false text

end Segmentation.Json
