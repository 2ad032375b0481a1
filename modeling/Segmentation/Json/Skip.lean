import Segmentation.Json.Container

/-!
Passing over a value that nothing asks for. The value has to be JSON, but less is checked than when
it is read: nesting has no limit, surrogates need not be paired, and no number is too large. A fault
in a number is one cause, however the number ends.
-/

set_option autoImplicit false

namespace Segmentation.Json

open Text

/-- The kind of an open bracket. -/
inductive Bracket where
  | list
  | object
  deriving DecidableEq

def Bracket.closing : Bracket → Char
  | .list => ']'
  | .object => '\x7d'

/-- The complaint that a text ends inside a bracket. -/
def Bracket.ended : Bracket → Cause
  | .list => .endInList
  | .object => .endInObject

/-- The complaint that neither a comma nor the closing bracket follows an entry. -/
def Bracket.expectedComma : Bracket → Cause
  | .list => .expectedListComma
  | .object => .expectedObjectComma

/-- Past a string, after its opening quote. -/
def skipString : Nat → List Char → Except Fault (List Char)
  | 0, _ => .error (.atEnd .endInString)
  | _ + 1, [] => .error (.atEnd .endInString)
  | limit + 1, c :: rest =>
    if c = '"' then .ok rest
    else if c = '\\' then
      match rest with
      | [] => .error (.atEnd .endInString)
      | d :: rest =>
        if (namedEscape? d).isSome then skipString limit rest
        else if d = 'u' then do
          let (_, rest) ← codeUnit rest
          skipString limit rest
        else .error (.upon .invalidEscape (d :: rest))
    else if c.toNat < 0x20 then .error (.before .controlCharacter (c :: rest))
    else skipString limit rest

/-- Past an exponent, after its marker. -/
def skipExponent (text : List Char) : Except Fault (List Char) :=
  match (exponentSign text).2 with
  | [] => .error (.atEnd .invalidNumber)
  | c :: rest =>
    if isDigit c then .ok (rest.dropWhile isDigit) else .error (.upon .invalidNumber (c :: rest))

/-- Past what follows the digits of a number. -/
def skipMarked : List Char → Except Fault (List Char)
  | 'e' :: rest => skipExponent rest
  | 'E' :: rest => skipExponent rest
  | text => .ok text

/-- Past a fraction, after its point. -/
def skipFraction (text : List Char) : Except Fault (List Char) :=
  match text with
  | [] => .error (.atEnd .invalidNumber)
  | c :: rest =>
    if isDigit c then skipMarked (rest.dropWhile isDigit)
    else .error (.upon .invalidNumber (c :: rest))

/-- Past what follows the integer digits of a number. -/
def skipPointed : List Char → Except Fault (List Char)
  | '.' :: rest => skipFraction rest
  | text => skipMarked text

/-- Past a number after its sign. -/
def skipNumber (text : List Char) : Except Fault (List Char) :=
  match text with
  | [] => .error (.atEnd .invalidNumber)
  | c :: rest =>
    if c = '0' then
      match rest with
      | [] => .ok []
      | d :: _ => if isDigit d then .error (.upon .invalidNumber rest) else skipPointed rest
    else if isDigit c then skipPointed (rest.dropWhile isDigit)
    else .error (.upon .invalidNumber (c :: rest))

/-- Past the name of a member and its colon. -/
def skipName (limit : Nat) (text : List Char) : Except Fault (List Char) :=
  match skipSpace text with
  | [] => .error (.atEnd .endInObject)
  | c :: rest =>
    if c = '"' then do colon (← skipString limit rest)
    else .error (.upon .keyNotString (c :: rest))

/-- Past the closing brackets that follow a value, out to the first container with another entry;
`opened` lists the containers from the innermost on. -/
def closeBrackets (opened : List Bracket) (text : List Char) :
    Except Fault (List Bracket × List Char) :=
  match opened with
  | [] => .ok ([], text)
  | bracket :: outer =>
    match skipSpace text with
    | [] => .error (.atEnd bracket.ended)
    | c :: rest =>
      if c = ',' then .ok (bracket :: outer, rest)
      else if c = bracket.closing then closeBrackets outer rest
      else .error (.upon bracket.expectedComma (c :: rest))

/-- The value of the next entry of a container: an item stands by itself, a member has a name. -/
def skipToValue (limit : Nat) (bracket : Bracket) (text : List Char) :
    Except Fault (List Char) :=
  match bracket with
  | .list => .ok text
  | .object => skipName limit text

/-- Past a scalar, given its first character. -/
def skipScalar (limit : Nat) (c : Char) (rest : List Char) : Except Fault (List Char) :=
  if c = '"' then skipString limit rest
  else if c = 'n' then word "ull".toList rest
  else if c = 't' then word "rue".toList rest
  else if c = 'f' then word "alse".toList rest
  else if c = '-' then skipNumber rest
  else if isDigit c then skipNumber (c :: rest)
  else .error (.upon .expectedValue (c :: rest))

/-- The bracket that a character opens. -/
def opening? (c : Char) : Option Bracket :=
  if c = '[' then some .list else if c = '\x7b' then some .object else none

/-- The containers still open after a value or an empty container, and the place reached. -/
def skipOpening (bracket : Bracket) (opened : List Bracket) (text : List Char) :
    Except Fault (Option (List Bracket × List Char)) :=
  match skipSpace text with
  | [] => .error (.atEnd bracket.ended)
  | c :: rest =>
    if c = bracket.closing then (closeBrackets opened rest).map some else .ok none

/-- Past a value and whatever closes after it, until no container is open. -/
def skipValues (bound : Nat) : Nat → List Bracket → List Char → Except Fault (List Char)
  | 0, _, _ => .error (.atEnd .endInValue)
  | limit + 1, opened, text =>
    match skipSpace text with
    | [] => .error (.atEnd .endInValue)
    | c :: rest => do
      let next ← match opening? c with
        | some bracket => do
          match ← skipOpening bracket opened rest with
          | some next => pure next
          | none => pure (bracket :: opened, rest)
        | none => do closeBrackets opened (← skipScalar bound c rest)
      match next with
      | ([], rest) => .ok rest
      | (bracket :: outer, rest) =>
        skipValues bound limit (bracket :: outer) (← skipToValue bound bracket rest)

/-- Past one value. -/
def skip (limit : Nat) : Scan Unit := fun text ↦ do
  .ok ((), ← skipValues limit limit [] text)

end Segmentation.Json
