import Segmentation.Event
import Segmentation.Filter.Basic
import Segmentation.Log
import Segmentation.Settings
import Segmentation.Text.Search

/-!
Deciding whether an event satisfies filters. Evaluation never fails: a property that is null counts
as missing, a missing property satisfies only `is not` and `is empty`, a comparison with something
that is no number is not satisfied, and a filter with an unknown condition always is.

`passes` stops at the first filter that is not satisfied; an absent list of filters accepts every
event. Each filter that is looked at leaves its line in the log.
-/

set_option autoImplicit false

namespace Segmentation

/-- Whether a condition holds of a property, given an operand; no property is a missing one. -/
def Condition.holds (condition : Condition) (property : Option Value) (operand : String) : Bool :=
  let equal := fun (value : Value) ↦ value.strictlyEquals (Value.cast operand value.kind)
  match condition with
  | .is => property.any equal
  | .isNot => property.all fun value ↦ !equal value
  | .contains => property.any fun value ↦ Text.contains value.text operand
  | .doesNotContain => property.any fun value ↦ !Text.contains value.text operand
  | .startsWith => property.any fun value ↦ Text.startsWith value.text operand
  | .doesNotStartWith => property.any fun value ↦ !Text.startsWith value.text operand
  | .endsWith => property.any fun value ↦ Text.endsWith value.text operand
  | .doesNotEndWith => property.any fun value ↦ !Text.endsWith value.text operand
  | .isMoreThan => property.any fun value ↦ (Numeral.read operand).less value.toNumber
  | .isLessThan => property.any fun value ↦ value.toNumber.less (Numeral.read operand)
  | .isEmpty => property.all Value.isEmptyString
  | .isNotEmpty => property.any fun value ↦ !value.isEmptyString
  | .unknown _ => true

namespace Settings

/-- The property that a name means under some settings; a null property is missing. -/
def resolve (settings : Settings) (event : Event) (name : String) : Option Value :=
  let found :=
    if settings.nestedPaths then event.lookup? settings.pathSeparator name else event.get? name
  found.filter fun value ↦ !value.isNull

/-- Whether an event satisfies one filter. -/
def satisfies (settings : Settings) (event : Event) (filter : Filter) : Bool :=
  filter.condition.holds (settings.resolve event filter.propertyName) filter.operand

/-! ### The log of an evaluation -/

/-- The warning about a filter that is skipped. -/
def skipWarning (settings : Settings) (filter : Filter) : List Log.Entry :=
  match filter.condition with
  | .unknown text =>
    if settings.warnOnUnknownCondition then
      [⟨.warn, .evaluator, "Skipping filter on '" ++ filter.propertyName ++
        "' with unknown condition '" ++ text ++ "'"⟩]
    else []
  | _ => []

/-- What a property is, for the log. -/
def describeProperty : Option Value → String
  | none => "missing"
  | some value => value.kind.name ++ " " ++ Text.quoted value.text

/-- The line about the outcome of a filter. -/
def outcomeEntry (settings : Settings) (event : Event) (filter : Filter) : Log.Entry :=
  if settings.satisfies event filter then
    ⟨.trace, .evaluator, "Filter satisfied: " ++ filter.describe⟩
  else
    ⟨.debug, .evaluator, "Filter not satisfied: " ++ filter.describe ++ " (property " ++
      describeProperty (settings.resolve event filter.propertyName) ++ ")"⟩

/-- Whether an event satisfies one filter, with the lines logged about it. -/
def check (settings : Settings) (event : Event) (filter : Filter) : Logged Bool :=
  ⟨settings.skipWarning filter ++ [settings.outcomeEntry event filter],
    settings.satisfies event filter⟩

/-- Whether an event satisfies all of some filters, up to the first that it does not. -/
def checkAll (settings : Settings) (event : Event) : List Filter → Logged Bool
  | [] => pure true
  | filter :: rest => do
    if ← settings.check event filter then checkAll settings event rest else pure false

/-- The evaluation of an event against a list of filters, which may be absent. -/
def evaluate (settings : Settings) (event : Event) (filters : Option (List Filter)) :
    Logged Bool :=
  match filters with
  | none => pure true
  | some filters => settings.checkAll event filters

/-- Whether an event passes a list of filters, which may be absent. -/
def passes (settings : Settings) (event : Event) (filters : Option (List Filter)) : Bool :=
  (settings.evaluate event filters).value

end Settings

end Segmentation
