import Segmentation.Decimal.Layout
import Segmentation.Json.Basic

/-!
JSON documents as text. Strings escape only what they must: the quotation mark, the backslash and
the controls. The compact form has no blanks; the indented form has one entry a line, two spaces
deeper than its container, and keeps an empty container on one line.
-/

set_option autoImplicit false

namespace Segmentation.Json

/-- The conventions of JSON numbers: positional from `1e-5` up to but not including `1e16`, always
with a point. -/
def style : Decimal.Style := ⟨.even, -5, 16, true⟩

/-- One character inside a string. -/
def escapeChar (c : Char) : List Char :=
  if c = '"' then ['\\', '"']
  else if c = '\\' then ['\\', '\\']
  else if c.toNat = 8 then ['\\', 'b']
  else if c.toNat = 12 then ['\\', 'f']
  else if c = '\n' then ['\\', 'n']
  else if c = '\r' then ['\\', 'r']
  else if c = '\t' then ['\\', 't']
  else if c.toNat < 0x10 then ['\\', 'u', '0', '0', '0', Nat.digitChar c.toNat]
  else if c.toNat < 0x20 then ['\\', 'u', '0', '0', '1', Nat.digitChar (c.toNat - 0x10)]
  else [c]

/-- A string in quotes. -/
def writeString (s : String) : List Char :=
  '"' :: s.toList.flatMap escapeChar ++ ['"']

/-- A finite double; the others have no JSON form and are written as null. -/
def writeDouble : Binary64 → List Char
  | .finite negative rank => Decimal.write style negative rank
  | _ => "null".toList

def writeInteger (n : Int) : List Char :=
  (if n < 0 then ['-'] else []) ++ Nat.toDigits 10 n.natAbs

def writeNumber : Number → List Char
  | .integer n => writeInteger n
  | .double x => writeDouble x

mutual

/-- A document without blanks. -/
def write : Json → List Char
  | .null => "null".toList
  | .bool b => (if b then "true" else "false").toList
  | .number n => writeNumber n
  | .string s => writeString s
  | .array [] => ['[', ']']
  | .array (item :: rest) => '[' :: write item ++ writeItems rest ++ [']']
  | .object [] => ['\x7b', '\x7d']
  | .object ((name, value) :: rest) =>
    '\x7b' :: writeString name ++ ':' :: write value ++ writeMembers rest ++ ['\x7d']

/-- The items after the first one, each after a comma. -/
def writeItems : List Json → List Char
  | [] => []
  | item :: rest => ',' :: write item ++ writeItems rest

/-- The members after the first one, each after a comma. -/
def writeMembers : List (String × Json) → List Char
  | [] => []
  | (name, value) :: rest => ',' :: writeString name ++ ':' :: write value ++ writeMembers rest

end

/-- A new line at a depth. -/
def newLine (depth : Nat) : List Char := '\n' :: List.replicate (2 * depth) ' '

mutual

/-- A document with one entry a line, at a depth. -/
def writeIndented (depth : Nat) : Json → List Char
  | .null => "null".toList
  | .bool b => (if b then "true" else "false").toList
  | .number n => writeNumber n
  | .string s => writeString s
  | .array [] => ['[', ']']
  | .array (item :: rest) =>
    '[' :: newLine (depth + 1) ++ writeIndented (depth + 1) item ++
      writeIndentedItems (depth + 1) rest ++ newLine depth ++ [']']
  | .object [] => ['\x7b', '\x7d']
  | .object ((name, value) :: rest) =>
    '\x7b' :: newLine (depth + 1) ++ writeString name ++ ':' :: ' ' ::
      writeIndented (depth + 1) value ++ writeIndentedMembers (depth + 1) rest ++
      newLine depth ++ ['\x7d']

/-- The items after the first one, each after a comma and on a line of its own. -/
def writeIndentedItems (depth : Nat) : List Json → List Char
  | [] => []
  | item :: rest =>
    ',' :: newLine depth ++ writeIndented depth item ++ writeIndentedItems depth rest

/-- The members after the first one, each after a comma and on a line of its own. -/
def writeIndentedMembers (depth : Nat) : List (String × Json) → List Char
  | [] => []
  | (name, value) :: rest =>
    ',' :: newLine depth ++ writeString name ++ ':' :: ' ' :: writeIndented depth value ++
      writeIndentedMembers depth rest

end

/-- The compact text of a document. -/
def compact (document : Json) : String := String.ofList (write document)

/-- The indented text of a document. -/
def indented (document : Json) : String := String.ofList (writeIndented 0 document)

end Segmentation.Json
