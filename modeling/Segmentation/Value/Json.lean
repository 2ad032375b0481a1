import Segmentation.Integer
import Segmentation.Json.Basic
import Segmentation.Value.Basic

/-!
Values and JSON documents. Reading turns every number into a double. Writing loses what JSON cannot
hold: NaN and the infinities become null, and a wide integer too long for a machine word becomes a
string of its digits.
-/

set_option autoImplicit false

namespace Segmentation.Value

mutual

/-- The value of a document. -/
def ofJson : Json → Value
  | .null => .null
  | .bool b => .boolean b
  | .number n => .number n.toBinary64
  | .string s => .string s
  | .array items => .array (ofJsonItems items)
  | .object members => .object (ofJsonMembers members)

def ofJsonItems : List Json → List Value
  | [] => []
  | item :: rest => ofJson item :: ofJsonItems rest

def ofJsonMembers : List (String × Json) → List (String × Value)
  | [] => []
  | (name, value) :: rest => (name, ofJson value) :: ofJsonMembers rest

end

/-- The document of a double. -/
def numberToJson : Binary64 → Json
  | .finite negative rank => .number (.double (.finite negative rank))
  | _ => .null

/-- The document of a wide integer. -/
def bigintToJson (n : WideInteger) : Json :=
  if Word.isSigned n.val then .number (.integer n.val) else .string (toString n.val)

mutual

/-- The document of a value. -/
def toJson : Value → Json
  | .null => .null
  | .boolean b => .bool b
  | .number x => numberToJson x
  | .bigint n => bigintToJson n
  | .string s => .string s
  | .array items => .array (toJsonItems items)
  | .object members => .object (toJsonMembers members)

def toJsonItems : List Value → List Json
  | [] => []
  | item :: rest => toJson item :: toJsonItems rest

def toJsonMembers : List (String × Value) → List (String × Json)
  | [] => []
  | (name, value) :: rest => (name, toJson value) :: toJsonMembers rest

end

end Segmentation.Value
