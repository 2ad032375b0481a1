import Mathlib
import Segmentation.Proofs.Members
import Segmentation.Value.Comparison

/-!
# Values without their null members

`withoutNulls` deletes every member that is null, at any depth; null items of lists keep their
place. Whatever a condition looks at is blind to the deletion: the kind, the text form
(`text_withoutNulls`), the numeric form (`toNumber_withoutNulls`) and equality
(`strictlyEquals_withoutNulls`). A step down into the value finds the same child with its own null
members deleted, or nothing where there was a null (`present_child?_withoutNulls`).
-/

set_option autoImplicit false

namespace Segmentation

namespace Members

/-- Entries chosen by their names are found as before if their name is chosen. -/
theorem get?_filter {α : Type} (chosen : String → Bool) (name : String)
    (members : List (String × α)) :
    get? name (members.filter fun member ↦ chosen member.1) =
      if chosen name then get? name members else none := by
  induction members with
  | nil => simp [get?]
  | cons member rest ih =>
    obtain ⟨key, value⟩ := member
    by_cases hname : name = key
    · subst hname
      by_cases hchosen : chosen name = true
      · simp [hchosen, get?]
      · simp [hchosen, ih]
    · by_cases hkey : chosen key = true
      · simp [hkey, get?, hname, ih]
      · simp [hkey, get?, hname, ih]

end Members

namespace Value

/-! ### Deleting null members -/

/-- A value that is there: null is as good as nothing. -/
def present (found : Option Value) : Option Value := found.filter fun value ↦ !value.isNull

theorem isNull_iff {value : Value} : value.isNull = true ↔ value = .null := by
  cases value <;> simp [isNull]

theorem present_some {value : Value} (h : value.isNull = false) :
    present (some value) = some value := by
  rw [present, Option.filter_some, h]
  rfl

/-- The members whose value is not null. -/
def presentMembers (members : List (String × Value)) : List (String × Value) :=
  members.filter fun member ↦ (present (Members.get? member.1 members)).isSome

mutual

/-- The value without the members that are null, at every depth. -/
def withoutNulls : Value → Value
  | .null => .null
  | .boolean b => .boolean b
  | .number x => .number x
  | .bigint n => .bigint n
  | .string s => .string s
  | .array items => .array (itemsWithoutNulls items)
  | .object members => .object (presentMembers (valuesWithoutNulls members))

/-- The items of a list, each without its null members. -/
def itemsWithoutNulls : List Value → List Value
  | [] => []
  | item :: rest => withoutNulls item :: itemsWithoutNulls rest

/-- All members of an object, each value without its own null members. -/
def valuesWithoutNulls : List (String × Value) → List (String × Value)
  | [] => []
  | (name, value) :: rest => (name, withoutNulls value) :: valuesWithoutNulls rest

end

/-! ### What remains of a value -/

theorem kind_withoutNulls (value : Value) : value.withoutNulls.kind = value.kind := by
  cases value <;> rfl

theorem isNull_withoutNulls (value : Value) : value.withoutNulls.isNull = value.isNull := by
  cases value <;> rfl

theorem isEmptyString_withoutNulls (value : Value) :
    value.withoutNulls.isEmptyString = value.isEmptyString := by
  cases value <;> rfl

/-- Lists and objects equal nothing, and the other values are left as they are. -/
theorem strictlyEquals_withoutNulls (value other : Value) :
    value.withoutNulls.strictlyEquals other = value.strictlyEquals other := by
  cases value <;> rfl

mutual

/-- A list shows its items only, and an object nothing of its members. -/
theorem text_withoutNulls : ∀ value : Value, value.withoutNulls.text = value.text
  | .null => rfl
  | .boolean _ => rfl
  | .number _ => rfl
  | .bigint _ => rfl
  | .string _ => rfl
  | .array items => by rw [withoutNulls, text, text, itemTexts_itemsWithoutNulls items]
  | .object _ => rfl

theorem itemTexts_itemsWithoutNulls : ∀ items : List Value,
    itemTexts (itemsWithoutNulls items) = itemTexts items
  | [] => rfl
  | item :: rest => by
    rw [itemsWithoutNulls, itemTexts, itemTexts, isNull_withoutNulls, text_withoutNulls item,
      itemTexts_itemsWithoutNulls rest]

end

theorem toNumber_withoutNulls (value : Value) : value.withoutNulls.toNumber = value.toNumber := by
  cases value with
  | array items =>
    have htext := text_withoutNulls (.array items)
    rw [withoutNulls] at htext ⊢
    rw [toNumber, toNumber, htext]
  | _ => rfl

/-! ### Steps into a value -/

theorem itemsWithoutNulls_eq_map (items : List Value) :
    itemsWithoutNulls items = items.map withoutNulls := by
  induction items with
  | nil => rfl
  | cons item rest ih => rw [itemsWithoutNulls, ih, List.map_cons]

theorem valuesWithoutNulls_eq_map (members : List (String × Value)) :
    valuesWithoutNulls members = members.map fun member ↦ (member.1, member.2.withoutNulls) := by
  induction members with
  | nil => rfl
  | cons member rest ih =>
    obtain ⟨name, value⟩ := member
    rw [valuesWithoutNulls, ih, List.map_cons]

theorem present_map_withoutNulls (found : Option Value) :
    present (found.map withoutNulls) = (present found).map withoutNulls := by
  cases found with
  | none => rfl
  | some value =>
    rw [present, present, Option.map_some, Option.filter_some, Option.filter_some,
      isNull_withoutNulls]
    cases value.isNull <;> rfl

theorem present_present (found : Option Value) : present (present found) = present found := by
  cases found with
  | none => rfl
  | some value => cases value <;> rfl

theorem get?_valuesWithoutNulls (name : String) (members : List (String × Value)) :
    Members.get? name (valuesWithoutNulls members) =
      (Members.get? name members).map withoutNulls := by
  rw [valuesWithoutNulls_eq_map, Members.get?_map]

/-- A member that is null is no longer found, and any other is found without its null members. -/
theorem get?_presentMembers (name : String) (members : List (String × Value)) :
    Members.get? name (presentMembers (valuesWithoutNulls members)) =
      (present (Members.get? name members)).map withoutNulls := by
  have hfilter := Members.get?_filter
    (fun name ↦ (present (Members.get? name (valuesWithoutNulls members))).isSome) name
    (valuesWithoutNulls members)
  rw [presentMembers, hfilter, get?_valuesWithoutNulls, present_map_withoutNulls]
  cases hfound : Members.get? name members with
  | none => rfl
  | some value => cases value <;> rfl

/-- A step down finds the same child, as far as it is there. -/
theorem present_child?_withoutNulls (segment : String) (value : Value) :
    present (value.withoutNulls.child? segment) =
      (present (value.child? segment)).map withoutNulls := by
  cases value with
  | object members =>
    rw [withoutNulls, child?, child?, get?_presentMembers, ← present_map_withoutNulls,
      present_present]
  | array items =>
    have hitem : ∀ position : ℕ, (items.map withoutNulls)[position]? =
        (items[position]?).map withoutNulls := fun position ↦ List.getElem?_map
    rw [withoutNulls, child?, child?, itemsWithoutNulls_eq_map]
    cases Numeral.index? segment with
    | none => rfl
    | some position =>
      rw [Option.bind_some, Option.bind_some, hitem, present_map_withoutNulls]
  | _ => rfl

end Value

end Segmentation
