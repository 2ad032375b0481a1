import Segmentation.Filter.Basic
import Segmentation.Integer
import Segmentation.Json.Record
import Segmentation.Numeral

/-!
Reading stored filters. The property and the condition are texts and have to be there; the operand
may be left out, and a number or a truth value is taken as the text that it would be written as.
-/

set_option autoImplicit false

namespace Segmentation.Filter

open Json (Scan RecordField Shape placed)

/-- The text of an operand that is stored as a scalar. Only integers of a machine word keep their
digits; other numbers go through their double. -/
def operandText? : Json → Option String
  | .string s => some s
  | .number (.integer n) =>
    some (if Word.isSigned n then toString n else Numeral.write (.ofInt n))
  | .number (.double x) => some (Numeral.write x)
  | .bool b => some (if b then "true" else "false")
  | _ => none

/-- The fields of a filter read so far. -/
structure Draft where
  propertyName : Option String := none
  condition : Option Condition := none
  operand : Option String := none

/-- The fields of a stored filter, in their order. -/
def fields (limit depth : Nat) : List (RecordField Draft) :=
  [{ name := "propertyName"
     aliases := ["property_name"]
     isSet := fun draft ↦ draft.propertyName.isSome
     read := fun draft text ↦ do
      let (name, rest) ← placed (Json.stringValue limit text)
      .ok ({ draft with propertyName := some name }, rest) },
   { name := "condition"
     aliases := []
     isSet := fun draft ↦ draft.condition.isSome
     read := fun draft text ↦ do
      let (condition, rest) ← placed (Json.stringValue limit text)
      .ok ({ draft with condition := some (Condition.parse condition) }, rest) },
   { name := "propertyValue"
     aliases := ["property_value"]
     isSet := fun draft ↦ draft.operand.isSome
     read := fun draft text ↦ do
      let (document, rest) ← placed (Json.value limit depth text)
      match operandText? document with
      | some operand => .ok ({ draft with operand := some operand }, rest)
      | none => .error (.overall .unfitOperand rest) }]

/-- A filter with all its fields, or the name of the first one that is missing. -/
def Draft.finish (draft : Draft) : Except String Filter :=
  match draft.propertyName, draft.condition with
  | none, _ => .error "propertyName"
  | some _, none => .error "condition"
  | some name, some condition => .ok ⟨name, condition, draft.operand.getD ""⟩

/-- The stored form of a filter; `depth` counts the brackets that may open inside. -/
def shape (limit depth : Nat) : Shape Draft Filter where
  wanted := "struct Filter"
  fields := fields limit depth
  start := {}
  finish := Draft.finish

/-- A stored filter; `depth` counts the brackets that may be open, its own included. -/
def scan (limit depth : Nat) : Scan Filter := (shape limit (depth - 1)).read limit depth

/-- The filters that a text lists. -/
def readList (text : String) : Except Json.ReadError (List Filter) :=
  Json.readWith (fun limit ↦ Json.listOf (scan limit (Json.maxDepth - 1)) limit) text

end Segmentation.Filter

namespace Segmentation.Condition

/-- The condition that a text holds as a JSON string. -/
def read (text : String) : Except Json.ReadError Condition :=
  (Json.readWith Json.stringValue text).map parse

end Segmentation.Condition
