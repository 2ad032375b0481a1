import Segmentation.Evaluation

/-!
Verdicts: the outcome of every filter with its reason. Unlike an evaluation, a verdict looks at all
filters, also past the first that is not satisfied.
-/

set_option autoImplicit false

namespace Segmentation

/-- Why a filter is satisfied or not. -/
inductive Reason where
  /-- The property is there and the condition holds. -/
  | matched
  /-- The property is there and the condition does not hold. -/
  | notMatched
  /-- The property is null or absent. -/
  | missingProperty
  /-- The condition is unknown, so the filter is skipped. -/
  | unknownCondition
  deriving DecidableEq

/-- The wording of a reason. -/
def Reason.describe : Reason → String
  | .matched => "matched"
  | .notMatched => "not matched"
  | .missingProperty => "missing property"
  | .unknownCondition => "unknown condition"

/-- The stored form of a reason. -/
def Reason.tag : Reason → String
  | .matched => "matched"
  | .notMatched => "not_matched"
  | .missingProperty => "missing_property"
  | .unknownCondition => "unknown_condition"

/-- The outcome of one filter. -/
structure Outcome where
  /-- The position of the filter in its list. -/
  index : Nat
  propertyName : String
  condition : Condition
  satisfied : Bool
  reason : Reason
  deriving DecidableEq

/-- The outcomes of all filters, and whether all are satisfied. -/
structure Verdict where
  passed : Bool
  outcomes : List Outcome
  deriving DecidableEq

namespace Settings

/-- The reason for the outcome of a filter. -/
def reason (settings : Settings) (event : Event) (filter : Filter) : Reason :=
  if !filter.condition.isKnown then .unknownCondition
  else if (settings.resolve event filter.propertyName).isNone then .missingProperty
  else if settings.satisfies event filter then .matched
  else .notMatched

/-- The outcomes of some filters, counted on from a position. -/
def outcomesFrom (settings : Settings) (event : Event) (start : Nat) :
    List Filter → Logged (List Outcome)
  | [] => pure []
  | filter :: rest => do
    let satisfied ← settings.check event filter
    let outcome : Outcome :=
      ⟨start, filter.propertyName, filter.condition, satisfied, settings.reason event filter⟩
    return outcome :: (← outcomesFrom settings event (start + 1) rest)

/-- The verdict on an event; an absent list of filters has no outcomes. -/
def judge (settings : Settings) (event : Event) (filters : Option (List Filter)) :
    Logged Verdict := do
  let outcomes ← settings.outcomesFrom event 0 (filters.getD [])
  return ⟨outcomes.all (·.satisfied), outcomes⟩

end Settings

/-- The positions of the filters that are not satisfied. -/
def Verdict.failures (verdict : Verdict) : List Nat :=
  (verdict.outcomes.filter (!·.satisfied)).map (·.index)

/-- An outcome as a document. -/
def Outcome.toJson (outcome : Outcome) : Json :=
  .object [("index", .number (.integer outcome.index)),
    ("property_name", .string outcome.propertyName),
    ("condition", .string outcome.condition.text),
    ("satisfied", .bool outcome.satisfied),
    ("reason", .string outcome.reason.tag)]

/-- A verdict as a document. -/
def Verdict.toJson (verdict : Verdict) : Json :=
  .object [("passed", .bool verdict.passed),
    ("outcomes", .array (verdict.outcomes.map Outcome.toJson))]

end Segmentation
