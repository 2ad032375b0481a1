import Mathlib
import Segmentation.Proofs.Evaluation.Resolution
import Segmentation.Proofs.Value.Nulls

/-!
# Null and absent properties

A property that is null counts as missing, and so does one that lies below a null. An event and the
event without its null members therefore resolve every name to the same property, up to null
members further down (`resolve_withoutNulls`), and no condition sees those. So an evaluation, a
verdict and their logs are the same on both events (`evaluate_withoutNulls`).

There is one exception. A name that contains the path separator is a path as well. While it is the
name of a null property it is not followed, but once that property is deleted it is. The main
statement excludes such names where names can be paths.
-/

set_option autoImplicit false

namespace Segmentation

namespace Event

open Value (present)

/-- The event without the properties and members that are null, at every depth. -/
def withoutNulls (event : Event) : Event where
  properties := Value.presentMembers (Value.valuesWithoutNulls event.properties)
  ordered := by
    rw [Value.valuesWithoutNulls_eq_map]
    exact List.Pairwise.filter _ (List.pairwise_map.mpr event.ordered)

theorem get?_withoutNulls (event : Event) (name : String) :
    event.withoutNulls.get? name = (present (event.get? name)).map Value.withoutNulls :=
  Value.get?_presentMembers name event.properties

/-! ### Paths -/

/-- Nothing lies below null. -/
theorem present_bind_child? (found : Option Value) (segment : String) :
    present (found.bind (Value.child? segment)) =
      present ((present found).bind (Value.child? segment)) := by
  cases found with
  | none => rfl
  | some value => cases value <;> rfl

/-- Paths lead to the same place from values that are the same as far as they are there. -/
theorem present_descend {found found' : Option Value}
    (h : present found' = (present found).map Value.withoutNulls) (segments : List String) :
    present (descend found' segments) =
      (present (descend found segments)).map Value.withoutNulls := by
  induction segments generalizing found found' with
  | nil => exact h
  | cons segment rest ih =>
    refine ih ?_
    rw [present_bind_child? found', h, present_bind_child? found]
    cases present found with
    | none => rfl
    | some value => exact Value.present_child?_withoutNulls segment value

theorem present_lookup?_withoutNulls {event : Event} {separator : Char}
    (h : ∀ name, event.get? name = some .null → separator ∉ name.toList) (path : String) :
    present (event.withoutNulls.lookup? separator path) =
      (present (event.lookup? separator path)).map Value.withoutNulls := by
  have hstart := event.get?_withoutNulls
  unfold lookup?
  rw [hstart path]
  cases hpath : event.get? path with
  | none =>
    cases segments separator path with
    | nil => rfl
    | cons first rest =>
      refine present_descend ?_ rest
      rw [hstart first, Value.present_map_withoutNulls, Value.present_present]
  | some value =>
    by_cases hnull : value.isNull = true
    · -- The name of a null property is not followed, and as a path it has no second segment.
      rw [Value.isNull_iff] at hnull
      subst hnull
      rw [segments_of_not_mem (h path hpath)]
      simp only [descend, hstart, hpath]
      rfl
    · rw [Bool.not_eq_true] at hnull
      rw [Value.present_some hnull]
      exact Value.present_some ((Value.isNull_withoutNulls value).trans hnull)

end Event

/-- No condition sees null members. -/
theorem Condition.holds_withoutNulls (condition : Condition) (property : Option Value)
    (operand : String) :
    condition.holds (property.map Value.withoutNulls) operand =
      condition.holds property operand := by
  cases property with
  | none => rfl
  | some value =>
    cases condition <;> simp only [Condition.holds, Option.map_some, Option.any_some,
      Option.all_some, Value.kind_withoutNulls, Value.strictlyEquals_withoutNulls,
      Value.text_withoutNulls, Value.toNumber_withoutNulls, Value.isEmptyString_withoutNulls]

namespace Settings

variable {settings : Settings} {event : Event}

/-- No name that can be a path is the name of a null property. -/
def FollowsNoNull (settings : Settings) (event : Event) : Prop :=
  settings.nestedPaths = false ∨
    ∀ name, event.get? name = some .null → settings.pathSeparator ∉ name.toList

/-- A name means the same property, without its null members. -/
theorem resolve_withoutNulls (h : settings.FollowsNoNull event) (name : String) :
    settings.resolve event.withoutNulls name =
      (settings.resolve event name).map Value.withoutNulls := by
  unfold resolve
  by_cases hpaths : settings.nestedPaths = true
  · have hnames := h.resolve_left (by simp [hpaths])
    simp only [if_pos hpaths]
    exact Event.present_lookup?_withoutNulls hnames name
  · simp only [if_neg hpaths, Event.get?_withoutNulls]
    exact (Value.present_map_withoutNulls _).trans (congrArg _ (Value.present_present _))

theorem satisfies_withoutNulls (h : settings.FollowsNoNull event) (filter : Filter) :
    settings.satisfies event.withoutNulls filter = settings.satisfies event filter := by
  rw [satisfies, resolve_withoutNulls h, Condition.holds_withoutNulls]
  rfl

theorem describeProperty_withoutNulls (property : Option Value) :
    describeProperty (property.map Value.withoutNulls) = describeProperty property := by
  cases property with
  | none => rfl
  | some value =>
    rw [Option.map_some, describeProperty, describeProperty, Value.kind_withoutNulls,
      Value.text_withoutNulls]

/-- One filter has the same result and leaves the same lines. -/
theorem check_withoutNulls (h : settings.FollowsNoNull event) (filter : Filter) :
    settings.check event.withoutNulls filter = settings.check event filter := by
  have hentry : settings.outcomeEntry event.withoutNulls filter =
      settings.outcomeEntry event filter := by
    rw [outcomeEntry, outcomeEntry, satisfies_withoutNulls h, resolve_withoutNulls h,
      describeProperty_withoutNulls]
  rw [check, check, hentry, satisfies_withoutNulls h]

theorem reason_withoutNulls (h : settings.FollowsNoNull event) (filter : Filter) :
    settings.reason event.withoutNulls filter = settings.reason event filter := by
  rw [reason, reason, satisfies_withoutNulls h, resolve_withoutNulls h, Option.isNone_map]

theorem alikeOn_withoutNulls (h : settings.FollowsNoNull event) (filter : Filter) :
    AlikeOn settings event.withoutNulls settings event filter :=
  ⟨check_withoutNulls h filter, reason_withoutNulls h filter⟩

theorem checkAll_withoutNulls (h : settings.FollowsNoNull event) (filters : List Filter) :
    settings.checkAll event.withoutNulls filters = settings.checkAll event filters :=
  checkAll_congr fun filter _ ↦ alikeOn_withoutNulls h filter

theorem outcomesFrom_withoutNulls (h : settings.FollowsNoNull event) (start : ℕ)
    (filters : List Filter) : settings.outcomesFrom event.withoutNulls start filters =
      settings.outcomesFrom event start filters :=
  outcomesFrom_congr (fun filter _ ↦ alikeOn_withoutNulls h filter) start

/-- An event and the event without its null members are evaluated alike, with the same log, and the
verdicts on them are the same, down to every reason and every line of the log. -/
theorem evaluate_withoutNulls (settings : Settings) (event : Event)
    (filters : Option (List Filter))
    (h : settings.nestedPaths = false ∨
      ∀ name, event.get? name = some .null → settings.pathSeparator ∉ name.toList) :
    settings.evaluate event.withoutNulls filters = settings.evaluate event filters ∧
      settings.judge event.withoutNulls filters = settings.judge event filters := by
  constructor
  · cases filters with
    | none => rfl
    | some filters => exact checkAll_withoutNulls h filters
  · rw [judge, judge, outcomesFrom_withoutNulls h]

/-- Nulls at the top, below a path and inside a list; the filters ask for each of them. -/
theorem evaluate_withoutNulls_nested :
    let event := Event.ofList [("a", .null), ("u", .object [("b", .null),
      ("c", .array [.null, .object [("d", .null), ("e", .string "x")]])])]
    let filters := some [Filter.ofTexts "u.c.1.e" "is" "x", Filter.ofTexts "u.c" "is" ",x",
      Filter.ofTexts "a" "is empty" "", Filter.ofTexts "u.b" "contains" "x"]
    (∀ name, event.get? name = some .null → '.' ∉ name.toList) ∧
      event.withoutNulls.size = 1 ∧
      (default : Settings).evaluate event.withoutNulls filters =
        (default : Settings).evaluate event filters ∧
      (default : Settings).judge event.withoutNulls filters =
        (default : Settings).judge event filters := by
  intro event filters
  have hnames : ∀ name, event.get? name = some .null → '.' ∉ name.toList := by
    intro name hname
    have hmember : (name, Value.null) ∈ event.properties := Members.mem_of_get? hname
    have hproperties : event.properties = [("a", .null), ("u", .object [("b", .null),
      ("c", .array [.null, .object [("d", .null), ("e", .string "x")]])])] := by rfl
    rw [hproperties] at hmember
    simp only [List.mem_cons, Prod.mk.injEq, reduceCtorEq, and_false, and_true,
      List.not_mem_nil, or_false] at hmember
    rw [hmember]
    decide
  exact ⟨hnames, rfl, (default : Settings).evaluate_withoutNulls event filters (Or.inr hnames)⟩

end Settings

end Segmentation
