import Segmentation.Json.Record

/-!
The settings of an evaluation: how property names are looked up, and whether skipped filters are
reported. In stored settings every field may be left out and then keeps its default.
-/

set_option autoImplicit false

namespace Segmentation

structure Settings where
  /-- Whether a property name can be a path into nested values. -/
  nestedPaths : Bool := true
  /-- The character between the segments of a path. -/
  pathSeparator : Char := '.'
  /-- Whether a filter with an unknown condition gives a warning. -/
  warnOnUnknownCondition : Bool := true
  deriving DecidableEq

/-- The settings in force where none are given. -/
def Settings.default : Settings := {}

instance : Inhabited Settings := ⟨Settings.default⟩

/-! ### Stored settings -/

namespace Settings

open Json (RecordField Shape placed)

/-- The settings read so far. -/
structure Draft where
  nestedPaths : Option Bool := none
  pathSeparator : Option Char := none
  warnOnUnknownCondition : Option Bool := none

/-- The settings of a draft, with defaults for what it lacks. -/
def Draft.complete (draft : Draft) : Settings where
  nestedPaths := draft.nestedPaths.getD default.nestedPaths
  pathSeparator := draft.pathSeparator.getD default.pathSeparator
  warnOnUnknownCondition := draft.warnOnUnknownCondition.getD default.warnOnUnknownCondition

/-- The fields of stored settings, in their order. -/
def fields (limit : Nat) : List (RecordField Draft) :=
  [{ name := "nested_paths"
     aliases := []
     isSet := fun draft ↦ draft.nestedPaths.isSome
     read := fun draft text ↦ do
      let (b, rest) ← placed (Json.booleanValue limit text)
      .ok ({ draft with nestedPaths := some b }, rest) },
   { name := "path_separator"
     aliases := []
     isSet := fun draft ↦ draft.pathSeparator.isSome
     read := fun draft text ↦ do
      let (c, rest) ← placed (Json.charValue limit text)
      .ok ({ draft with pathSeparator := some c }, rest) },
   { name := "warn_on_unknown_condition"
     aliases := []
     isSet := fun draft ↦ draft.warnOnUnknownCondition.isSome
     read := fun draft text ↦ do
      let (b, rest) ← placed (Json.booleanValue limit text)
      .ok ({ draft with warnOnUnknownCondition := some b }, rest) }]

/-- The stored form of settings. -/
def shape (limit : Nat) : Shape Draft Settings where
  wanted := "struct EvaluatorConfig"
  fields := fields limit
  start := {}
  finish := fun draft ↦ .ok draft.complete

/-- The settings that a text holds. -/
def read (text : String) : Except Json.ReadError Settings :=
  Json.readWith (fun limit ↦ (shape limit).read limit Json.maxDepth) text

end Settings

end Segmentation
