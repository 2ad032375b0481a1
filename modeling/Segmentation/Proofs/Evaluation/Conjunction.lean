import Mathlib
import Segmentation.Proofs.Verdict.Agreement

/-!
# Filters as a conjunction

Although an evaluation walks along its list and stops early, its answer depends only on the set of
filters in the list whose condition is known (`passes_congr`): neither the order, nor repetitions,
nor filters that are skipped matter. The failures of a verdict are positions, which do depend on the
order; the filters at these positions are those of the list that are not satisfied
(`map_failures_judge`), so they are as many of each kind in every order (`filters_combine`).
-/

set_option autoImplicit false

namespace Segmentation.Settings

variable (settings : Settings) (event : Event)

/-- A filter with an unknown condition is satisfied by every event. -/
theorem satisfies_of_not_isKnown {filter : Filter} (h : filter.condition.isKnown = false) :
    settings.satisfies event filter = true := by
  unfold satisfies
  cases hcondition : filter.condition with
  | unknown text => rfl
  | _ =>
    rw [hcondition] at h
    exact absurd h (by decide)

/-! ### The answer -/

theorem passes_some (filters : List Filter) :
    settings.passes event (some filters) = filters.all (settings.satisfies event) :=
  settings.value_evaluate event (some filters)

theorem passes_append (front back : List Filter) :
    settings.passes event (some (front ++ back)) =
      (settings.passes event (some front) && settings.passes event (some back)) := by
  rw [passes_some, passes_some, passes_some, List.all_append]

/-- An event passes exactly if it satisfies the filters that are not skipped. -/
theorem passes_some_iff {filters : List Filter} :
    settings.passes event (some filters) = true ↔ ∀ filter ∈ filters,
      filter.condition.isKnown = true → settings.satisfies event filter = true := by
  rw [passes_some, List.all_eq_true]
  constructor
  · exact fun h filter hfilter _ ↦ h filter hfilter
  · intro h filter hfilter
    cases hknown : filter.condition.isKnown with
    | true => exact h filter hfilter hknown
    | false => exact settings.satisfies_of_not_isKnown event hknown

/-- The answer depends only on the set of filters that are not skipped. -/
theorem passes_congr {first second : List Filter}
    (h : ∀ filter, filter.condition.isKnown = true → (filter ∈ first ↔ filter ∈ second)) :
    settings.passes event (some first) = settings.passes event (some second) := by
  apply Bool.eq_iff_iff.mpr
  rw [passes_some_iff, passes_some_iff]
  constructor
  · exact fun hfirst filter hfilter hknown ↦ hfirst filter ((h filter hknown).mpr hfilter) hknown
  · exact fun hsecond filter hfilter hknown ↦ hsecond filter ((h filter hknown).mp hfilter) hknown

theorem passes_of_forall_not_isKnown {filters : List Filter}
    (h : ∀ filter ∈ filters, filter.condition.isKnown = false) :
    settings.passes event (some filters) = true := by
  rw [passes_some_iff]
  intro filter hfilter hknown
  exact absurd hknown (by rw [h filter hfilter]; decide)

/-! ### The failures -/

/-- The filters at the positions that a verdict reports are those that are not satisfied. -/
theorem map_failures_judge (filters : List Filter) :
    (settings.judge event (some filters)).value.failures.map (filters[·]?) =
      (filters.filter fun filter ↦ !settings.satisfies event filter).map some := by
  have hpositions : (List.range filters.length).map (filters[·]?) = filters.map some := by
    apply List.ext_getElem <;> simp
  rw [failures_judge, Option.getD_some]
  calc ((List.range filters.length).filter fun i ↦
          filters[i]?.any fun filter ↦ !settings.satisfies event filter).map (filters[·]?)
      = ((List.range filters.length).map (filters[·]?)).filter
          (·.any fun filter ↦ !settings.satisfies event filter) := by
          rw [List.filter_map]
          rfl
    _ = (filters.map some).filter (·.any fun filter ↦ !settings.satisfies event filter) := by
          rw [hpositions]
    _ = (filters.filter fun filter ↦ !settings.satisfies event filter).map some :=
          List.filter_map

/-- In another order the same filters fail, each as often. -/
theorem map_failures_judge_perm {first second : List Filter} (h : first.Perm second) :
    ((settings.judge event (some first)).value.failures.map (first[·]?)).Perm
      ((settings.judge event (some second)).value.failures.map (second[·]?)) := by
  rw [map_failures_judge, map_failures_judge]
  exact (h.filter _).map some

/-- Filters combine as a conjunction without order. A list of two parts accepts the events that both
parts accept. Lists accept the same events if they are the same up to the order, or up to the order,
repetitions and filters with unknown conditions. Lists of only such filters, the empty list and the
absent list accept every event. In every order the filters at the positions that the verdict reports
as failures are the same, each as often, and they are the filters that are not satisfied. -/
theorem filters_combine (first second : List Filter) :
    settings.passes event (some (first ++ second)) =
        (settings.passes event (some first) && settings.passes event (some second)) ∧
      (first.Perm second →
        settings.passes event (some first) = settings.passes event (some second)) ∧
      ((∀ filter, filter.condition.isKnown = true → (filter ∈ first ↔ filter ∈ second)) →
        settings.passes event (some first) = settings.passes event (some second)) ∧
      ((∀ filter ∈ first, filter.condition.isKnown = false) →
        settings.passes event (some first) = true) ∧
      settings.passes event (some []) = true ∧ settings.passes event none = true ∧
      (settings.judge event (some first)).value.failures.map (first[·]?) =
        (first.filter fun filter ↦ !settings.satisfies event filter).map some ∧
      (first.Perm second →
        ((settings.judge event (some first)).value.failures.map (first[·]?)).Perm
          ((settings.judge event (some second)).value.failures.map (second[·]?))) := by
  refine ⟨settings.passes_append event first second, ?_, settings.passes_congr event,
    settings.passes_of_forall_not_isKnown event, rfl, rfl, settings.map_failures_judge event first,
    settings.map_failures_judge_perm event⟩
  intro hperm
  exact settings.passes_congr event fun filter _ ↦ hperm.mem_iff

/-- Two filters, one of them not satisfied, and a skipped one: in another order, with one of the
others repeated and another filter skipped, and the skipped ones alone. -/
theorem filters_combine_three :
    let event := Event.ofList [("plan", .string "pro"), ("region", .string "eu")]
    let plan := Filter.ofTexts "plan" "is" "pro"
    let region := Filter.ofTexts "region" "starts with" "us"
    let skipped := Filter.ofTexts "plan" "matches" "p.*"
    let other := Filter.ofTexts "region" "is near" "eu"
    let settings := (default : Settings)
    settings.passes event (some [plan, skipped, region]) =
        settings.passes event (some [region, skipped, plan]) ∧
      ((settings.judge event (some [plan, skipped, region])).value.failures.map
          ([plan, skipped, region][·]?)).Perm
        ((settings.judge event (some [region, skipped, plan])).value.failures.map
          ([region, skipped, plan][·]?)) ∧
      (settings.judge event (some [plan, skipped, region])).value.failures = [2] ∧
      (settings.judge event (some [region, skipped, plan])).value.failures = [0] ∧
      settings.passes event (some [plan, skipped, region]) =
        settings.passes event (some [other, region, plan, region]) ∧
      settings.passes event (some [skipped, other]) = true := by
  intro event plan region skipped other settings
  have hperm : [plan, skipped, region].Perm [region, skipped, plan] := by decide
  obtain ⟨-, hpasses, -, -, -, -, -, hfailures⟩ :=
    settings.filters_combine event [plan, skipped, region] [region, skipped, plan]
  obtain ⟨-, -, hknown, -⟩ :=
    settings.filters_combine event [plan, skipped, region] [other, region, plan, region]
  obtain ⟨-, -, -, hskipped, -⟩ := settings.filters_combine event [skipped, other] []
  refine ⟨hpasses hperm, hfailures hperm, by decide, by decide, hknown ?_, hskipped (by decide)⟩
  intro filter hcondition
  have hnotSkipped : filter ≠ skipped := by
    rintro rfl
    exact absurd hcondition (by decide)
  have hnotOther : filter ≠ other := by
    rintro rfl
    exact absurd hcondition (by decide)
  simp only [List.mem_cons, List.not_mem_nil, hnotSkipped, hnotOther, false_or, or_false]
  rw [or_left_comm, or_self]

end Segmentation.Settings
