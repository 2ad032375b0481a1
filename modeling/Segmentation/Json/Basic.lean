import Segmentation.Binary64.Rounding

/-!
JSON documents. A number is kept as the integer it was written as, when it fits a machine word, and
as a double otherwise.
-/

set_option autoImplicit false

namespace Segmentation

/-- A JSON number. -/
inductive Json.Number where
  | integer (n : Int)
  | double (x : Binary64)
  deriving DecidableEq

/-- A JSON document. Members are written in the order they have here; a document that was read has
them in increasing order of their names. -/
inductive Json where
  | null
  | bool (b : Bool)
  | number (n : Json.Number)
  | string (s : String)
  | array (items : List Json)
  | object (members : List (String × Json))

namespace Json

/-- The double nearest to a number. -/
def Number.toBinary64 : Number → Binary64
  | .integer n => .ofInt n
  | .double x => x

end Json

end Segmentation
