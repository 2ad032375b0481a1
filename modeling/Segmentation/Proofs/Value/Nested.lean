import Mathlib
import Segmentation.Value.Basic

/-!
# What is stored in a value

`Nested` describes what is stored in a value without looking anything up: the members of an object
and the items of a list, at any depth, each with the steps that lead to it. A statement about
everything stored in a list is one about everything stored in its items (`forall_nested_array`), and
so for the members of an object (`forall_nested_object`); in a scalar only the scalar itself is
stored (`forall_nested_scalar`).
-/

set_option autoImplicit false

namespace Segmentation.Value

/-- One step into a value. -/
inductive Step where
  /-- To the member of an object with this name. -/
  | key (name : String)
  /-- To the item of a list at this position. -/
  | index (position : ℕ)

/-- The second value is stored in the first, at some steps. -/
inductive Nested : List Step → Value → Value → Prop
  | here (value : Value) : Nested [] value value
  | member {name : String} {value inner : Value} {members : List (String × Value)}
      {steps : List Step} (hmember : (name, value) ∈ members) (h : Nested steps value inner) :
      Nested (.key name :: steps) (.object members) inner
  | item {position : ℕ} {value inner : Value} {items : List Value} {steps : List Step}
      (hitem : items[position]? = some value) (h : Nested steps value inner) :
      Nested (.index position :: steps) (.array items) inner

theorem Nested.trans {first second third : Value} {steps more : List Step}
    (h : Nested steps first second) (hmore : Nested more second third) :
    Nested (steps ++ more) first third := by
  induction h with
  | here _ => exact hmore
  | member hmember _ ih => exact .member hmember (ih hmore)
  | item hitem _ ih => exact .item hitem (ih hmore)

section Everywhere

variable {P : Value → Prop}

/-- In a list, the list and what its items hold is stored. -/
theorem forall_nested_array {items : List Value} :
    (∀ steps inner, Nested steps (.array items) inner → P inner) ↔
      P (.array items) ∧ ∀ item ∈ items, ∀ steps inner, Nested steps item inner → P inner := by
  constructor
  · refine fun h ↦ ⟨h [] _ (.here _), fun item hitem steps inner hinner ↦ ?_⟩
    obtain ⟨position, hposition⟩ := List.getElem?_of_mem hitem
    exact h (.index position :: steps) inner (.item hposition hinner)
  · rintro ⟨hself, hitems⟩ steps inner hinner
    cases hinner with
    | here _ => exact hself
    | item hposition hinner => exact hitems _ (List.mem_of_getElem? hposition) _ _ hinner

/-- In an object, the object and what its members hold is stored. -/
theorem forall_nested_object {members : List (String × Value)} :
    (∀ steps inner, Nested steps (.object members) inner → P inner) ↔
      P (.object members) ∧
        ∀ member ∈ members, ∀ steps inner, Nested steps member.2 inner → P inner := by
  constructor
  · exact fun h ↦ ⟨h [] _ (.here _), fun member hmember steps inner hinner ↦
      h (.key member.1 :: steps) inner (.member hmember hinner)⟩
  · rintro ⟨hself, hmembers⟩ steps inner hinner
    cases hinner with
    | here _ => exact hself
    | member hmember hinner => exact hmembers _ hmember _ _ hinner

/-- In any other value, only the value itself is stored. -/
theorem forall_nested_scalar {value : Value} (harray : ∀ items, value ≠ .array items)
    (hobject : ∀ members, value ≠ .object members) :
    (∀ steps inner, Nested steps value inner → P inner) ↔ P value := by
  refine ⟨fun h ↦ h [] _ (.here _), fun h steps inner hinner ↦ ?_⟩
  cases hinner with
  | here _ => exact h
  | item _ _ => exact absurd rfl (harray _)
  | member _ _ => exact absurd rfl (hobject _)

end Everywhere

end Segmentation.Value
