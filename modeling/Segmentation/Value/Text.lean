import Segmentation.Value.Basic

/-!
The text form of a value, which the conditions on texts look at, and the numeric form, which the
ordering conditions compare. A list is its items joined by commas; an item that is null leaves its
place empty.
-/

set_option autoImplicit false

namespace Segmentation.Value

mutual

/-- The text form of a value. -/
def text : Value → String
  | .null => "null"
  | .boolean b => if b then "true" else "false"
  | .number x => Numeral.write x
  | .bigint n => toString n.val
  | .string s => s
  | .array items => ",".intercalate (itemTexts items)
  | .object _ => "[object Object]"

/-- The texts of the items of a list; null has none. -/
def itemTexts : List Value → List String
  | [] => []
  | item :: rest => (if item.isNull then "" else text item) :: itemTexts rest

end

/-- The numeric form of a value. What is neither a number nor a truth value is read from its text
form, so that a text which is no number gives NaN. -/
def toNumber : Value → Binary64
  | .number x => x
  | .bigint n => .ofInt n.val
  | .boolean b => if b then .one else .zero
  | .null => .zero
  | .string s => Numeral.read s
  | .array items => Numeral.read (text (.array items))
  | .object members => Numeral.read (text (.object members))

end Segmentation.Value
