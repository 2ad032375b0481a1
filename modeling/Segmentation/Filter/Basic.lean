import Segmentation.Condition
import Segmentation.Json.Basic
import Segmentation.Text.Quoted

/-!
Filters: a property, a condition on it, and a text to compare it with. Segments: named filter lists.
A segment without a list has every event for a member.
-/

set_option autoImplicit false

namespace Segmentation

structure Filter where
  propertyName : String
  condition : Condition
  /-- What the property is compared with, always a text. -/
  operand : String
  deriving DecidableEq

namespace Filter

/-- The filter with a condition given as text. -/
def ofTexts (name condition operand : String) : Filter :=
  ⟨name, Condition.parse condition, operand⟩

/-- A filter on one line, with its operand in quotes. -/
def describe (filter : Filter) : String :=
  filter.propertyName ++ " " ++ filter.condition.text ++ " " ++ Text.quoted filter.operand

/-- A filter as it is stored. -/
def toJson (filter : Filter) : Json :=
  .object [("propertyName", .string filter.propertyName),
    ("condition", .string filter.condition.text),
    ("propertyValue", .string filter.operand)]

end Filter

structure Segment where
  name : String
  filters : Option (List Filter)
  deriving DecidableEq

/-- The filters of a segment whose condition is unknown, in their order. -/
def Segment.unknownFilters (segment : Segment) : List Filter :=
  (segment.filters.getD []).filter fun filter ↦ !filter.condition.isKnown

end Segmentation
