import Segmentation.Decimal.Basic
import Segmentation.Integer
import Segmentation.Text.Character

/-!
TOML documents, as far as a configuration asks for them: of a date or time only that it is one. The
scalars of TOML: strings in quotes of one or three, integers and floats with separators between
their digits, truth values, dates and times.
-/

set_option autoImplicit false

namespace Segmentation

inductive Toml where
  | string (s : String)
  | integer (n : Int)
  | float (x : Binary64)
  | boolean (b : Bool)
  | dateTime
  | array (items : List Toml)
  | table (entries : List (String × Toml))

namespace Toml

open Text

/-- Reading from the front of a text; no result is a fault. -/
abbrev Scan (α : Type) := List Char → Option (α × List Char)

/-- A word in front of a text, cut off. -/
def cut? : List Char → List Char → Option (List Char)
  | [], text => some text
  | _ :: _, [] => none
  | expected :: more, c :: rest => if c = expected then cut? more rest else none

/-! ### Strings -/

/-- A character that may stand in a comment or a string on one line: no control but the tab. -/
def isInline (c : Char) : Bool := c == '\t' || (0x20 ≤ c.toNat && c.toNat != 0x7f)

/-- The character with a number given by some hexadecimal digits. -/
def numbered (count : Nat) : Scan Char := fun text ↦ do
  let digits ← digits? 16 (text.take count)
  let code := ofDigits 16 digits
  if digits.length = count ∧ code.isValidChar then some (Char.ofNat code, text.drop count)
  else none

/-- An escape, after the backslash. -/
def escape : Scan Char
  | [] => none
  | c :: rest =>
    if c = '"' ∨ c = '\\' then some (c, rest)
    else if c = 'b' then some (Char.ofNat 8, rest)
    else if c = 't' then some ('\t', rest)
    else if c = 'n' then some ('\n', rest)
    else if c = 'f' then some (Char.ofNat 12, rest)
    else if c = 'r' then some ('\r', rest)
    else if c = 'u' then numbered 4 rest
    else if c = 'U' then numbered 8 rest
    else none

/-- A string with escapes on one line, after its opening quote. -/
def basicBody : Nat → Scan (List Char)
  | 0, _ => none
  | _ + 1, [] => none
  | limit + 1, c :: rest =>
    if c = '"' then some ([], rest)
    else do
      let (plain, rest) ← if c = '\\' then escape rest
        else if isInline c then some (c, rest) else none
      let (more, rest) ← basicBody limit rest
      some (plain :: more, rest)

/-- A string without escapes on one line, after its opening quote. -/
def literalBody : Scan (List Char)
  | [] => none
  | c :: rest =>
    if c = '\'' then some ([], rest)
    else if isInline c then do
      let (more, rest) ← literalBody rest
      some (c :: more, rest)
    else none

/-- An end of line in front of a text, cut off. -/
def lineEnd? : List Char → Option (List Char)
  | '\n' :: rest => some rest
  | '\r' :: '\n' :: rest => some rest
  | _ => none

def isSpace (c : Char) : Bool := c == ' ' || c == '\t'

def skipSpace (text : List Char) : List Char := text.dropWhile isSpace

/-- Blanks and ends of lines. -/
def skipBlankLines : Nat → List Char → List Char
  | 0, text => text
  | limit + 1, text =>
    match lineEnd? (skipSpace text) with
    | some rest => skipBlankLines limit rest
    | none => skipSpace text

/-- What some quotes mean inside a string over several lines: three end it, and up to two of its
own may stand before those. -/
def quotes (mark : Char) (text : List Char) : List Char × Option (List Char) :=
  let count := (text.takeWhile (· == mark)).length
  if count < 3 then (List.replicate count mark, none)
  else
    let taken := min count 5
    (List.replicate (taken - 3) mark, some (text.drop taken))

/-- A string over several lines, after its opening quotes. A backslash at the end of a line takes
the line end and the blanks after it away; an end of line counts as a line feed. -/
def blockBody (mark : Char) (escaped : Bool) : Nat → Scan (List Char)
  | 0, _ => none
  | _ + 1, [] => none
  | limit + 1, c :: rest =>
    if c = mark then
      match quotes mark (c :: rest) with
      | (own, some rest) => some (own, rest)
      | (own, none) => do
        let (more, rest) ← blockBody mark escaped limit (rest.dropWhile (· == mark))
        some (own ++ more, rest)
    else match lineEnd? (c :: rest) with
      | some rest => do
        let (more, rest) ← blockBody mark escaped limit rest
        some ('\n' :: more, rest)
      | none =>
        if escaped ∧ c = '\\' then
          match lineEnd? (skipSpace rest) with
          | some after => blockBody mark escaped limit (skipBlankLines limit after)
          | none => do
            let (plain, rest) ← escape rest
            let (more, rest) ← blockBody mark escaped limit rest
            some (plain :: more, rest)
        else if isInline c then do
          let (more, rest) ← blockBody mark escaped limit rest
          some (c :: more, rest)
        else none

/-- A string over several lines, after its opening quotes; an end of line right after them is
dropped. -/
def block (mark : Char) (escaped : Bool) (limit : Nat) : Scan (List Char) := fun text ↦
  blockBody mark escaped limit ((lineEnd? text).getD text)

/-- A string of any form. -/
def stringLiteral (limit : Nat) : Scan String := fun text ↦ do
  let (body, rest) ←
    match text with
    | '"' :: '"' :: '"' :: rest => block '"' true limit rest
    | '"' :: rest => basicBody limit rest
    | '\'' :: '\'' :: '\'' :: rest => block '\'' false limit rest
    | '\'' :: rest => literalBody rest
    | _ => none
  some (String.ofList body, rest)

/-! ### Numbers -/

/-- Digits with single separators between them, after the first digit. -/
def digitsAfter (isDigit : Char → Bool) : Scan (List Char)
  | [] => some ([], [])
  | '_' :: c :: rest =>
    if isDigit c then do
      let (more, rest) ← digitsAfter isDigit rest
      some (c :: more, rest)
    else none
  | ['_'] => none
  | c :: rest =>
    if isDigit c then do
      let (more, rest) ← digitsAfter isDigit rest
      some (c :: more, rest)
    else some ([], c :: rest)

/-- One digit or more, with single separators between them. -/
def digitRun (isDigit : Char → Bool) : Scan (List Char)
  | [] => none
  | c :: rest =>
    if isDigit c then do
      let (more, rest) ← digitsAfter isDigit rest
      some (c :: more, rest)
    else none

/-- An integer in a radix, after its prefix. -/
def radixInteger (radix : Nat) : Scan Toml := fun text ↦ do
  let (word, rest) ← digitRun (fun c ↦ (digit? radix c).isSome) text
  let n ← natural? radix word
  if Word.isSigned n then some (.integer n, rest) else none

/-- The digits before a point: no zero stands in front of others. -/
def wholeDigits : Scan (List Char)
  | '0' :: rest => some (['0'], rest)
  | text => digitRun isDigit text

/-- A sign cut off the front. -/
def cutSign : List Char → Bool × List Char
  | '+' :: rest => (false, rest)
  | '-' :: rest => (true, rest)
  | text => (false, text)

/-- An exponent, after its marker. -/
def exponent : Scan Int := fun text ↦ do
  let (negative, text) := cutSign text
  let (digits, rest) ← digitRun isDigit text
  some (if negative then -(digitsValue digits : Int) else digitsValue digits, rest)

/-- An exponent if there is one, and whether there is. -/
def exponent? : Scan (Option Int)
  | 'e' :: rest => do
    let (e, rest) ← exponent rest
    some (some e, rest)
  | 'E' :: rest => do
    let (e, rest) ← exponent rest
    some (some e, rest)
  | text => some (none, text)

/-- A float with its parts. A positive number too large for a double is refused, a negative one is
minus infinity. -/
def ofParts (negative : Bool) (whole fraction : List Char) (e : Int) : Option Toml :=
  let d : Decimal := ⟨negative, digitsValue (whole ++ fraction), e - fraction.length⟩
  let x := d.toBinary64
  if x = .infinite false then none else some (.float x)

/-- A number with a sign before it. -/
def signedNumber (negative : Bool) : Scan Toml
  | 'i' :: 'n' :: 'f' :: rest => some (.float (.infinite negative), rest)
  | 'n' :: 'a' :: 'n' :: rest => some (.float .nan, rest)
  | text => do
    let (whole, rest) ← wholeDigits text
    match rest with
    | '.' :: rest =>
      let (fraction, rest) ← digitRun isDigit rest
      let (e, rest) ← exponent? rest
      some (← ofParts negative whole fraction (e.getD 0), rest)
    | _ =>
      match ← exponent? rest with
      | (some e, rest) => some (← ofParts negative whole [] e, rest)
      | (none, rest) =>
        let n : Int := if negative then -(digitsValue whole : Int) else digitsValue whole
        if Word.isSigned n then some (.integer n, rest) else none

/-- A number. A radix prefix has no sign. -/
def number : Scan Toml
  | '0' :: 'x' :: rest => radixInteger 16 rest
  | '0' :: 'o' :: rest => radixInteger 8 rest
  | '0' :: 'b' :: rest => radixInteger 2 rest
  | text => signedNumber (cutSign text).1 (cutSign text).2

/-! ### Dates and times -/

/-- A number of exactly so many digits. -/
def fixedNumber (count : Nat) : Scan Nat := fun text ↦
  let word := text.take count
  if word.length = count ∧ word.all isDigit then some (digitsValue word, text.drop count) else none

/-- A number of two digits up to a bound. -/
def twoDigits (bound : Nat) : Scan Nat := fun text ↦ do
  let (n, rest) ← fixedNumber 2 text
  if n ≤ bound then some (n, rest) else none

/-- The number of days of a month. -/
def daysIn (year month : Nat) : Nat :=
  if month = 2 then
    if year % 4 = 0 ∧ (year % 100 ≠ 0 ∨ year % 400 = 0) then 29 else 28
  else if month = 4 ∨ month = 6 ∨ month = 9 ∨ month = 11 then 30
  else 31

/-- Past a date of the calendar. -/
def date (text : List Char) : Option (List Char) := do
  let (year, rest) ← fixedNumber 4 text
  let (month, rest) ← twoDigits 12 (← cut? ['-'] rest)
  let (day, rest) ← twoDigits 31 (← cut? ['-'] rest)
  if 1 ≤ month ∧ 1 ≤ day ∧ day ≤ daysIn year month then some rest else none

/-- Past a fraction of a second, if there is one. -/
def secondFraction : List Char → List Char
  | '.' :: c :: rest => if isDigit c then rest.dropWhile isDigit else '.' :: c :: rest
  | text => text

/-- Past a time of the day. A minute may have a leap second. -/
def time (text : List Char) : Option (List Char) := do
  let (_, rest) ← twoDigits 23 text
  let (_, rest) ← twoDigits 59 (← cut? [':'] rest)
  let (_, rest) ← twoDigits 60 (← cut? [':'] rest)
  some (secondFraction rest)

/-- Past the offset of a time, if there is one. -/
def offset : List Char → Option (List Char)
  | [] => some []
  | c :: rest =>
    if c = 'Z' ∨ c = 'z' then some rest
    else if c = '+' ∨ c = '-' then do
      let (_, rest) ← twoDigits 23 rest
      let (_, rest) ← twoDigits 59 (← cut? [':'] rest)
      some rest
    else some (c :: rest)

/-- Past a time that follows a date, if there is one. -/
def timeAfterDate : List Char → Option (List Char)
  | [] => some []
  | c :: rest =>
    if c = 'T' ∨ c = 't' ∨ c = ' ' then
      match time rest with
      | some rest => offset rest
      | none => some (c :: rest)
    else some (c :: rest)

/-- A date, a time, or both. -/
def dateOrTime : Scan Toml := fun text ↦
  match date text with
  | some rest => (timeAfterDate rest).map fun rest ↦ (.dateTime, rest)
  | none => (time text).map fun rest ↦ (.dateTime, rest)

end Toml

end Segmentation
