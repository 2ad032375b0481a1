import Mathlib
import Segmentation.Proofs.Binary64.Exact
import Segmentation.Proofs.Event.RoundTrip
import Segmentation.Proofs.Value.Nested

/-!
# Values converted to documents and back

A document holds no wide integers and no numbers without a finite value. So a value that is
converted to a document and back is changed where it holds one of these: `normal` is what comes back
(`ofJson_toJson_eq_normal`). Every second conversion changes nothing more (`normal_normal`), because
a wide integer that becomes a number becomes a finite one (`exists_finite_ofInt`).

A value is intact if nothing stored in it, at any depth, is lossy. The conversion keeps exactly
these values, whether values are compared as they are (`normal_eq_self_iff`) or by content
(`sameContent_normal_iff`). `conversion_normalises` is the statement for values and events.
-/

set_option autoImplicit false

namespace Segmentation

namespace Binary64

/-- An integer that fits a machine word is rounded to a finite number. -/
theorem exists_finite_ofInt {n : ℤ} (h : Word.isSigned n = true) :
    ∃ rank, ofInt n = .finite (decide (n < 0)) rank := by
  have hsmall : n.natAbs ≤ 2 ^ 63 := by
    have hrange := Word.isSigned_iff.mp h
    simp only [Word.signedLimit] at hrange
    omega
  have hmagnitude := isMagnitude_ofRatio (by decide : 63 < 1024) hsmall
  rw [ofInt, ← signed_ofRatio]
  exact hmagnitude.signed _

end Binary64

namespace Value

open Binary64

/-! ### The normal form -/

/-- A number that is not finite leaves nothing behind. -/
def normalNumber : Binary64 → Value
  | .finite negative rank => .number (.finite negative rank)
  | _ => .null

/-- A wide integer within a machine word becomes a number, any other one the text of its digits. -/
def normalBigint (n : WideInteger) : Value :=
  if Word.isSigned n.val then .number (.ofInt n.val) else .string (toString n.val)

mutual

/-- The value with everything replaced that a document cannot hold, at every depth. -/
def normal : Value → Value
  | .null => .null
  | .boolean b => .boolean b
  | .number x => normalNumber x
  | .bigint n => normalBigint n
  | .string s => .string s
  | .array items => .array (normalItems items)
  | .object members => .object (normalMembers members)

def normalItems : List Value → List Value
  | [] => []
  | item :: rest => normal item :: normalItems rest

def normalMembers : List (String × Value) → List (String × Value)
  | [] => []
  | (name, value) :: rest => (name, normal value) :: normalMembers rest

end

/-- The items of a list keep their number and order. -/
theorem normalItems_eq_map (items : List Value) : normalItems items = items.map normal := by
  induction items with
  | nil => rfl
  | cons item rest ih => rw [normalItems, ih, List.map_cons]

/-- The members of an object keep their names. -/
theorem normalMembers_eq_map (members : List (String × Value)) :
    normalMembers members = members.map fun member ↦ (member.1, member.2.normal) := by
  induction members with
  | nil => rfl
  | cons member rest ih =>
    obtain ⟨name, value⟩ := member
    rw [normalMembers, ih, List.map_cons]

mutual

/-- What comes back of a value is its normal form. -/
theorem ofJson_toJson_eq_normal : ∀ value : Value, ofJson value.toJson = value.normal
  | .null => rfl
  | .boolean _ => rfl
  | .number x => by cases x <;> rfl
  | .bigint n => by
    rw [toJson, normal, bigintToJson, normalBigint]
    split <;> rfl
  | .string _ => rfl
  | .array items => by
    rw [toJson, ofJson, normal, ofJsonItems_toJsonItems items]
  | .object members => by
    rw [toJson, ofJson, normal, ofJsonMembers_toJsonMembers members]

theorem ofJsonItems_toJsonItems : ∀ items : List Value,
    ofJsonItems (toJsonItems items) = normalItems items
  | [] => rfl
  | item :: rest => by
    rw [toJsonItems, ofJsonItems, normalItems, ofJson_toJson_eq_normal item,
      ofJsonItems_toJsonItems rest]

theorem ofJsonMembers_toJsonMembers : ∀ members : List (String × Value),
    ofJsonMembers (toJsonMembers members) = normalMembers members
  | [] => rfl
  | (name, value) :: rest => by
    rw [toJsonMembers, ofJsonMembers, normalMembers, ofJson_toJson_eq_normal value,
      ofJsonMembers_toJsonMembers rest]

end

/-! ### What is kept -/

/-- No document holds the value: it is a wide integer or a number that is not finite. -/
inductive IsLossy : Value → Prop
  | bigint (n : WideInteger) : IsLossy (.bigint n)
  | nan : IsLossy (.number .nan)
  | infinite (negative : Bool) : IsLossy (.number (.infinite negative))

/-- Nothing that is stored in the value, at any depth, is lossy. -/
def IsIntact (value : Value) : Prop := ∀ steps inner, Nested steps value inner → ¬IsLossy inner

theorem isIntact_array_iff {items : List Value} :
    IsIntact (.array items) ↔ ∀ item ∈ items, IsIntact item := by
  have hself : ¬IsLossy (.array items) := fun h ↦ by cases h
  exact forall_nested_array.trans (and_iff_right hself)

theorem isIntact_object_iff {members : List (String × Value)} :
    IsIntact (.object members) ↔ ∀ member ∈ members, IsIntact member.2 := by
  have hself : ¬IsLossy (.object members) := fun h ↦ by cases h
  exact forall_nested_object.trans (and_iff_right hself)

theorem isIntact_scalar_iff {value : Value} (harray : ∀ items, value ≠ .array items)
    (hobject : ∀ members, value ≠ .object members) : IsIntact value ↔ ¬IsLossy value :=
  forall_nested_scalar harray hobject

theorem isIntact_bigint (n : WideInteger) : ¬IsIntact (.bigint n) :=
  fun h ↦ h [] _ (.here _) (.bigint n)

/-- Of the numbers, the finite ones are intact. -/
theorem isIntact_number_iff {x : Binary64} :
    IsIntact (.number x) ↔ ∃ negative rank, x = .finite negative rank := by
  rw [isIntact_scalar_iff (by simp) (by simp)]
  cases x with
  | nan => exact iff_of_false (fun h ↦ h .nan) (by simp)
  | infinite negative => exact iff_of_false (fun h ↦ h (.infinite negative)) (by simp)
  | finite negative rank =>
    exact iff_of_true (fun h ↦ by cases h) ⟨negative, rank, rfl⟩

theorem isIntact_null : IsIntact .null :=
  (isIntact_scalar_iff (by simp) (by simp)).mpr fun h ↦ by cases h

theorem isIntact_boolean (b : Bool) : IsIntact (.boolean b) :=
  (isIntact_scalar_iff (by simp) (by simp)).mpr fun h ↦ by cases h

theorem isIntact_string (s : String) : IsIntact (.string s) :=
  (isIntact_scalar_iff (by simp) (by simp)).mpr fun h ↦ by cases h

mutual

/-- A normal form is intact. -/
theorem isIntact_normal : ∀ value : Value, IsIntact value.normal
  | .null => isIntact_null
  | .boolean b => isIntact_boolean b
  | .number .nan => isIntact_null
  | .number (.infinite _) => isIntact_null
  | .number (.finite negative rank) => isIntact_number_iff.mpr ⟨negative, rank, rfl⟩
  | .bigint n => by
    rw [normal, normalBigint]
    split
    · rename_i hsigned
      obtain ⟨rank, hfinite⟩ := exists_finite_ofInt hsigned
      exact isIntact_number_iff.mpr ⟨_, rank, hfinite⟩
    · exact isIntact_string _
  | .string s => isIntact_string s
  | .array items => isIntact_array_iff.mpr (isIntact_normalItems items)
  | .object members => isIntact_object_iff.mpr (isIntact_normalMembers members)

theorem isIntact_normalItems : ∀ items : List Value, ∀ item ∈ normalItems items, IsIntact item
  | [] => by simp [normalItems]
  | item :: rest => by
    rw [normalItems, List.forall_mem_cons]
    exact ⟨isIntact_normal item, isIntact_normalItems rest⟩

theorem isIntact_normalMembers : ∀ members : List (String × Value),
    ∀ member ∈ normalMembers members, IsIntact member.2
  | [] => by simp [normalMembers]
  | (name, value) :: rest => by
    rw [normalMembers, List.forall_mem_cons]
    exact ⟨isIntact_normal value, isIntact_normalMembers rest⟩

end

mutual

/-- The intact values are their own normal forms, with the same content. -/
theorem sameContent_normal_iff : ∀ value : Value,
    value.normal.sameContent value = true ↔ IsIntact value
  | .null => iff_of_true rfl isIntact_null
  | .boolean b => iff_of_true (beq_self_eq_true b) (isIntact_boolean b)
  | .number .nan => iff_of_false (by decide) (by simp [isIntact_number_iff])
  | .number (.infinite _) => iff_of_false Bool.false_ne_true (by simp [isIntact_number_iff])
  | .number (.finite negative rank) =>
    iff_of_true (equals_self (.finite negative rank))
      (isIntact_number_iff.mpr ⟨negative, rank, rfl⟩)
  | .bigint n => by
    refine iff_of_false ?_ (isIntact_bigint n)
    rw [normal, normalBigint]
    split <;> exact Bool.false_ne_true
  | .string s => iff_of_true (beq_self_eq_true s) (isIntact_string s)
  | .array items => by
    rw [normal, sameContent, sameItems_normal_iff items, isIntact_array_iff]
  | .object members => by
    rw [normal, sameContent, sameMembers_normal_iff members, isIntact_object_iff]

theorem sameItems_normal_iff : ∀ items : List Value,
    sameItems (normalItems items) items = true ↔ ∀ item ∈ items, IsIntact item
  | [] => by simp [normalItems, sameItems]
  | item :: rest => by
    rw [normalItems, sameItems, Bool.and_eq_true, sameContent_normal_iff item,
      sameItems_normal_iff rest, List.forall_mem_cons]

theorem sameMembers_normal_iff : ∀ members : List (String × Value),
    sameMembers (normalMembers members) members = true ↔ ∀ member ∈ members, IsIntact member.2
  | [] => by simp [normalMembers, sameMembers]
  | (name, value) :: rest => by
    rw [normalMembers, sameMembers, beq_self_eq_true, Bool.true_and, Bool.and_eq_true,
      sameContent_normal_iff value, sameMembers_normal_iff rest, List.forall_mem_cons]

end

mutual

/-- Nothing of an intact value is replaced. -/
theorem normal_of_isIntact : ∀ value : Value, IsIntact value → value.normal = value
  | .null, _ => rfl
  | .boolean _, _ => rfl
  | .number .nan, h => absurd h (by simp [isIntact_number_iff])
  | .number (.infinite _), h => absurd h (by simp [isIntact_number_iff])
  | .number (.finite _ _), _ => rfl
  | .bigint n, h => absurd h (isIntact_bigint n)
  | .string _, _ => rfl
  | .array items, h => by
    rw [normal, normalItems_of_isIntact items (isIntact_array_iff.mp h)]
  | .object members, h => by
    rw [normal, normalMembers_of_isIntact members (isIntact_object_iff.mp h)]

theorem normalItems_of_isIntact : ∀ items : List Value, (∀ item ∈ items, IsIntact item) →
    normalItems items = items
  | [], _ => rfl
  | item :: rest, h => by
    obtain ⟨hitem, hrest⟩ := List.forall_mem_cons.mp h
    rw [normalItems, normal_of_isIntact item hitem, normalItems_of_isIntact rest hrest]

theorem normalMembers_of_isIntact : ∀ members : List (String × Value),
    (∀ member ∈ members, IsIntact member.2) → normalMembers members = members
  | [], _ => rfl
  | (name, value) :: rest, h => by
    obtain ⟨hvalue, hrest⟩ := List.forall_mem_cons.mp h
    rw [normalMembers, normal_of_isIntact value hvalue, normalMembers_of_isIntact rest hrest]

end

/-- Exactly the intact values are their own normal forms. -/
theorem normal_eq_self_iff {value : Value} : value.normal = value ↔ IsIntact value :=
  ⟨fun h ↦ h ▸ isIntact_normal value, normal_of_isIntact value⟩

/-- A normal form is its own normal form. -/
theorem normal_normal (value : Value) : value.normal.normal = value.normal :=
  normal_of_isIntact _ (isIntact_normal value)

end Value

namespace Event

open Value (IsIntact)

/-- The event with everything replaced that a document cannot hold. -/
def normal (event : Event) : Event where
  properties := Value.normalMembers event.properties
  ordered := by
    rw [Value.normalMembers_eq_map]
    exact Members.ordered_map _ event.ordered

theorem toValue_normal (event : Event) : event.normal.toValue = event.toValue.normal := rfl

/-- What comes back of an event is its normal form. -/
theorem ofJson_toJson_eq_ok (event : Event) : ofJson event.toJson = .ok event.normal := by
  have hback : Value.ofJson event.toJson = .object (Value.normalMembers event.properties) :=
    Value.ofJson_toJson_eq_normal event.toValue
  rw [ofJson, hback]
  exact congrArg Except.ok (ofList_of_ordered event.normal.ordered)

theorem normal_eq_self_iff {event : Event} : event.normal = event ↔ IsIntact event.toValue := by
  rw [← Value.normal_eq_self_iff, ← toValue_normal]
  exact ⟨congrArg toValue, fun h ↦ Event.ext (Value.object.inj h)⟩

/-- Converting a value to a document and back gives its normal form. In it a wide integer within a
machine word is the number nearest to it, of two equally near the even one, and any other is the
text of its digits; lists keep their items in order and objects their names. The normal form of a
normal form is itself, and a value is its own normal form exactly if no wide integer and no number
without a finite value is stored in it at any depth. So an event comes back as its normal form, and
as it was, also in content, exactly if none of its values holds one of these. -/
theorem conversion_normalises :
    (∀ value : Value, Value.ofJson value.toJson = value.normal ∧
      value.normal.normal = value.normal ∧ (value.normal = value ↔ IsIntact value)) ∧
    (∀ n : WideInteger, ∃ rank,
      Binary64.IsNearest rank (n.val.natAbs * Binary64.unitsPerOne) 1 ∧
        (Value.bigint n).normal =
          if -2 ^ 63 ≤ n.val ∧ n.val < 2 ^ 63 then
            .number (Binary64.ofRank (decide (n.val < 0)) rank)
          else .string (toString n.val)) ∧
    (∀ items : List Value, (Value.array items).normal = .array (items.map Value.normal)) ∧
    (∀ members : List (String × Value), (Value.object members).normal =
      .object (members.map fun member ↦ (member.1, member.2.normal))) ∧
    ∀ event : Event, ofJson event.toJson = .ok event.normal ∧
      (event.normal = event ↔ IsIntact event.toValue) ∧
      (event.normal.sameContent event = true ↔ IsIntact event.toValue) := by
  refine ⟨fun value ↦ ⟨value.ofJson_toJson_eq_normal, value.normal_normal,
    Value.normal_eq_self_iff⟩, fun n ↦ ?_, fun items ↦ ?_, fun members ↦ ?_, fun event ↦
      ⟨event.ofJson_toJson_eq_ok, normal_eq_self_iff,
        Value.sameContent_normal_iff event.toValue⟩⟩
  · refine ⟨Binary64.nearestRank (n.val.natAbs * Binary64.unitsPerOne) 1,
      Binary64.isNearest_nearestRank _ Nat.one_pos, ?_⟩
    have hrange : Word.isSigned n.val = true ↔ -2 ^ 63 ≤ n.val ∧ n.val < 2 ^ 63 := by
      rw [Word.isSigned_iff, Word.signedLimit]
      norm_num
    rw [Value.normal, Value.normalBigint]
    simp only [hrange]
    rfl
  · rw [Value.normal, Value.normalItems_eq_map]
  · rw [Value.normal, Value.normalMembers_eq_map]

end Event

end Segmentation
