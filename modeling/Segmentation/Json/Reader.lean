import Segmentation.Json.Container
import Segmentation.Members

/-!
Reading JSON documents. Brackets may be nested `maxDepth` deep; one more is refused. Of several
members of one name the last one counts.
-/

set_option autoImplicit false

namespace Segmentation.Json

/-- The number of brackets that may be open at once. -/
def maxDepth : Nat := 127

/-- A value whose bracketed parts are read by another scan; without one, no bracket may open. -/
def valueWith (limit : Nat) (inner : Option (Scan Json)) : Scan Json := fun text ↦
  match skipSpace text with
  | [] => .error (.atEnd .endInValue)
  | c :: rest =>
    if c = '"' then do
      let (s, rest) ← stringTail limit rest
      .ok (.string s, rest)
    else if c = '[' then
      match inner with
      | none => .error (.upon .tooDeep (c :: rest))
      | some read => do
        let (list, rest) ← items read true limit rest
        .ok (.array list, rest)
    else if c = '\x7b' then
      match inner with
      | none => .error (.upon .tooDeep (c :: rest))
      | some read => do
        let (entries, rest) ← members limit read true limit rest
        .ok (.object (Members.ofList entries), rest)
    else if c = 'n' then do .ok (.null, ← word "ull".toList rest)
    else if c = 't' then do .ok (.bool true, ← word "rue".toList rest)
    else if c = 'f' then do .ok (.bool false, ← word "alse".toList rest)
    else if c = '-' ∨ Text.isDigit c then do
      let (n, rest) ← numberLiteral (c :: rest)
      .ok (.number n, rest)
    else .error (.upon .expectedValue (c :: rest))

/-- A value in which a number of brackets may be open at once. -/
def value (limit : Nat) : Nat → Scan Json
  | 0 => valueWith limit none
  | depth + 1 => valueWith limit (some (value limit depth))

/-- A scan that has to reach the end of its text, blanks apart. -/
def whole {α : Type} (scan : Scan α) (text : List Char) : Except Fault α := do
  let (result, rest) ← scan text
  match skipSpace rest with
  | [] => .ok result
  | c :: rest => .error (.upon .trailingText (c :: rest))

/-- A text read to its end by a scan that knows the length of the text. -/
def readWith {α : Type} (scan : Nat → Scan α) (text : String) : Except ReadError α :=
  let chars := text.toList
  (whole (scan (chars.length + 1)) chars).mapError (Fault.locate chars)

/-- The document that a text holds. -/
def read (text : String) : Except ReadError Json :=
  readWith (fun limit ↦ value limit maxDepth) text

end Segmentation.Json
