import Mathlib
import Segmentation.Evaluation
import Segmentation.Proofs.Event.Paths
import Segmentation.Proofs.Value.Nulls

/-!
# Missing properties

A name can lead to nothing in several ways. `LeadsNowhere` describes what can stop a path below a
value: a null, at its end or on the way, a scalar with segments left, a member that is not there, a
position past the end of a list. `IsMissing` adds what can happen at the top: a null property hides
what its name would lead to as a path. A name resolves to no property in exactly these cases
(`resolve_eq_none_iff`).
-/

set_option autoImplicit false

namespace Segmentation

/-! ### Below a value -/

namespace Value

/-- What some segments lead to below a value is absent or null. -/
inductive LeadsNowhere : Value → List String → Prop
  /-- A null, whatever segments are left. -/
  | null (rest : List String) : LeadsNowhere .null rest
  /-- A scalar with a segment left. -/
  | scalar {value : Value} (harray : ∀ items, value ≠ .array items)
      (hobject : ∀ members, value ≠ .object members) (segment : String) (rest : List String) :
      LeadsNowhere value (segment :: rest)
  /-- An object without a member of that name. -/
  | member {members : List (String × Value)} {segment : String}
      (h : ∀ member ∈ members, member.1 ≠ segment) (rest : List String) :
      LeadsNowhere (.object members) (segment :: rest)
  /-- A list without an item at that position; a segment need not be a position at all. -/
  | item {items : List Value} {segment : String}
      (h : ∀ position, Numeral.index? segment = some position → items.length ≤ position)
      (rest : List String) : LeadsNowhere (.array items) (segment :: rest)
  /-- Nowhere after a step. -/
  | step {value inner : Value} {segment : String} {rest : List String}
      (hchild : value.child? segment = some inner) (h : LeadsNowhere inner rest) :
      LeadsNowhere value (segment :: rest)

theorem present_eq_none_iff {found : Option Value} :
    present found = none ↔ found = none ∨ found = some .null := by
  cases found with
  | none => simp [present]
  | some value => cases value <;> simp [present, isNull]

/-- A scalar holds nothing. -/
theorem child?_scalar {value : Value} (harray : ∀ items, value ≠ .array items)
    (hobject : ∀ members, value ≠ .object members) (segment : String) :
    value.child? segment = none := by
  cases value with
  | array items => exact absurd rfl (harray items)
  | object members => exact absurd rfl (hobject members)
  | null | boolean _ | number _ | bigint _ | string _ => rfl

theorem child?_object_eq_none_iff {members : List (String × Value)} {segment : String} :
    (object members).child? segment = none ↔ ∀ member ∈ members, member.1 ≠ segment :=
  Members.get?_eq_none_iff

theorem child?_array_eq_none_iff {items : List Value} {segment : String} :
    (array items).child? segment = none ↔
      ∀ position, Numeral.index? segment = some position → items.length ≤ position := by
  rw [child?, Option.bind_eq_none_iff]
  simp only [List.getElem?_eq_none_iff]

/-- A value without a child of that name leads nowhere. -/
theorem leadsNowhere_of_child? {value : Value} {segment : String}
    (h : value.child? segment = none) (rest : List String) :
    LeadsNowhere value (segment :: rest) := by
  cases value with
  | array items => exact .item (child?_array_eq_none_iff.mp h) rest
  | object members => exact .member (child?_object_eq_none_iff.mp h) rest
  | null | boolean _ | number _ | bigint _ | string _ =>
    exact .scalar (fun _ ↦ Value.noConfusion) (fun _ ↦ Value.noConfusion) segment rest

/-- Segments lead nowhere exactly if stepping through them gives nothing or null. -/
theorem leadsNowhere_iff {value : Value} {rest : List String} :
    LeadsNowhere value rest ↔
      present (rest.foldlM (fun value segment ↦ value.child? segment) value) = none := by
  constructor
  · intro h
    induction h with
    | null rest => cases rest <;> rfl
    | scalar harray hobject segment rest =>
      rw [List.foldlM_cons, child?_scalar harray hobject]
      rfl
    | member h rest =>
      rw [List.foldlM_cons, child?_object_eq_none_iff.mpr h]
      rfl
    | item h rest =>
      rw [List.foldlM_cons, child?_array_eq_none_iff.mpr h]
      rfl
    | step hchild _ ih =>
      rw [List.foldlM_cons, hchild]
      exact ih
  · induction rest generalizing value with
    | nil =>
      intro h
      rcases present_eq_none_iff.mp h with hnone | hnull
      · exact absurd hnone (by simp)
      · obtain rfl : value = .null := Option.some.inj hnull
        exact .null []
    | cons segment rest ih =>
      intro h
      rw [List.foldlM_cons] at h
      cases hchild : value.child? segment with
      | none => exact leadsNowhere_of_child? hchild rest
      | some inner =>
        rw [hchild] at h
        exact .step hchild (ih h)

end Value

/-! ### At the top -/

/-- A path gives nothing or null if a null property has it for a name, or if no property has and
there is nothing where it starts or it leads nowhere from there. -/
theorem Event.present_lookup?_join_eq_none_iff {event : Event} {separator : Char} {first : String}
    {rest : List String} (h : ∀ segment ∈ first :: rest, separator ∉ segment.toList) :
    Value.present (event.lookup? separator (join separator (first :: rest))) = none ↔
      event.get? (join separator (first :: rest)) = some .null ∨
      event.get? (join separator (first :: rest)) = none ∧
        (event.get? first = none ∨
          ∃ value, event.get? first = some value ∧ Value.LeadsNowhere value rest) := by
  rw [lookup?_join h]
  cases event.get? (join separator (first :: rest)) with
  | some value => simp [Value.present_eq_none_iff]
  | none =>
    cases event.get? first with
    | none => simp [Value.present]
    | some value => simp [Value.leadsNowhere_iff]

namespace Settings

open Value (LeadsNowhere present)

variable {settings : Settings} {event : Event} {name : String}

/-- The property that a name means under some settings is absent or null. -/
inductive IsMissing (settings : Settings) (event : Event) (name : String) : Prop
  /-- The property of that name is null. What the name leads to as a path does not matter. -/
  | null (h : event.get? name = some .null)
  /-- No property has that name, and names are not followed as paths. -/
  | name (hflat : settings.nestedPaths = false) (h : event.get? name = none)
  /-- No property has that name, nor the name that the path starts with. -/
  | start {first : String} {rest : List String} (hpaths : settings.nestedPaths = true)
      (hsegments : ∀ segment ∈ first :: rest, settings.pathSeparator ∉ segment.toList)
      (hname : Event.join settings.pathSeparator (first :: rest) = name)
      (h : event.get? name = none) (hstart : event.get? first = none)
  /-- No property has that name, and as a path it leads nowhere. -/
  | path {first : String} {rest : List String} {value : Value}
      (hpaths : settings.nestedPaths = true)
      (hsegments : ∀ segment ∈ first :: rest, settings.pathSeparator ∉ segment.toList)
      (hname : Event.join settings.pathSeparator (first :: rest) = name)
      (h : event.get? name = none) (hstart : event.get? first = some value)
      (hrest : LeadsNowhere value rest)

theorem resolve_of_flat (h : settings.nestedPaths = false) (event : Event) (name : String) :
    settings.resolve event name = present (event.get? name) := by
  rw [resolve, h]
  rfl

theorem resolve_of_paths (h : settings.nestedPaths = true) (event : Event) (name : String) :
    settings.resolve event name = present (event.lookup? settings.pathSeparator name) := by
  rw [resolve, h]
  rfl

/-- A name resolves to no property exactly if the property is missing. -/
theorem resolve_eq_none_iff :
    settings.resolve event name = none ↔ IsMissing settings event name := by
  cases hpaths : settings.nestedPaths with
  | false =>
    rw [resolve_of_flat hpaths, Value.present_eq_none_iff]
    constructor
    · rintro (h | h)
      · exact .name hpaths h
      · exact .null h
    · rintro (h | ⟨-, h⟩ | ⟨hpaths'⟩ | ⟨hpaths'⟩)
      · exact Or.inr h
      · exact Or.inl h
      all_goals exact absurd (hpaths.symm.trans hpaths') (by simp)
  | true =>
    rw [resolve_of_paths hpaths]
    constructor
    · intro h
      obtain ⟨first, rest, hsegments, rfl⟩ := Event.exists_join settings.pathSeparator name
      rcases (Event.present_lookup?_join_eq_none_iff hsegments).mp h with
        hnull | ⟨hname, hstart | ⟨value, hstart, hrest⟩⟩
      · exact .null hnull
      · exact .start hpaths hsegments rfl hname hstart
      · exact .path hpaths hsegments rfl hname hstart hrest
    · rintro (h | ⟨hflat⟩ | ⟨-, hsegments, rfl, h, hstart⟩ |
        ⟨-, hsegments, rfl, h, hstart, hrest⟩)
      · rw [Event.lookup?, h]
        rfl
      · exact absurd (hpaths.symm.trans hflat) (by simp)
      · exact (Event.present_lookup?_join_eq_none_iff hsegments).mpr (Or.inr ⟨h, Or.inl hstart⟩)
      · exact (Event.present_lookup?_join_eq_none_iff hsegments).mpr
          (Or.inr ⟨h, Or.inr ⟨_, hstart, hrest⟩⟩)

end Settings

end Segmentation
