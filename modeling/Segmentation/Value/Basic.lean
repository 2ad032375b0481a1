import Segmentation.Members
import Segmentation.Numeral

/-!
Property values. A value is a JSON document in which every number is a double, extended by wide
integers, which only a caller can supply. Comparisons tell the kinds of values apart; an absent
property has a kind of its own.
-/

set_option autoImplicit false

namespace Segmentation

/-- A property value. The members of an object are in increasing order of their names. -/
inductive Value where
  | null
  | boolean (b : Bool)
  | number (x : Binary64)
  | bigint (n : WideInteger)
  | string (s : String)
  | array (items : List Value)
  | object (members : List (String × Value))

/-- The kinds of property that comparisons tell apart. -/
inductive Kind where
  | undefined
  | null
  | boolean
  | number
  | bigint
  | string
  | array
  | object
  deriving DecidableEq

/-- The name of a kind in messages. -/
def Kind.name : Kind → String
  | .undefined => "undefined"
  | .null => "null"
  | .boolean => "boolean"
  | .number => "number"
  | .bigint => "bigint"
  | .string => "string"
  | .array => "array"
  | .object => "object"

namespace Value

instance : Inhabited Value := ⟨.null⟩

def kind : Value → Kind
  | .null => .null
  | .boolean _ => .boolean
  | .number _ => .number
  | .bigint _ => .bigint
  | .string _ => .string
  | .array _ => .array
  | .object _ => .object

def isNull : Value → Bool
  | .null => true
  | _ => false

/-- True of the empty string alone; an empty list or object is not an empty string. -/
def isEmptyString : Value → Bool
  | .string s => s.isEmpty
  | _ => false

def string? : Value → Option String
  | .string s => some s
  | _ => none

/-- An integer as a property value: the double nearest to it. -/
def ofInt (n : Int) : Value := .number (.ofInt n)

/-- The value one segment further down: a member of an object by its name, an item of a list by
its position. Other values have none. -/
def child? (segment : String) : Value → Option Value
  | .object members => Members.get? segment members
  | .array items => (Numeral.index? segment).bind (items[·]?)
  | _ => none

end Value

end Segmentation
