import Mathlib
import Segmentation.Configuration.Basic

/-!
# When a configuration can be used

The check of a configuration walks along its segments and keeps the names it has seen.
`value_checkNames_eq_ok_iff` says what the walk finds out about the names as a whole, and
`value_check_eq_ok_iff` that nothing else is asked of a configuration than an input and names of its
own for the segments. `checkNames_append` follows the walk along segments that it does not stop at,
with their warnings. The check ends in one of three ways, and each of them has its equation
(`check_of_noInputs`, `check_of_nodup`, `check_of_repeatedName`).
-/

set_option autoImplicit false

namespace Segmentation.Configuration

/-- The names are accepted if none repeats another or one that was seen before. -/
theorem value_checkNames_eq_ok_iff (seen : List String) (segments : List Segment) :
    (checkNames seen segments).value = .ok () ↔
      (segments.map Segment.name).Nodup ∧ ∀ segment ∈ segments, segment.name ∉ seen := by
  induction segments generalizing seen with
  | nil => simp [checkNames]
  | cons segment rest ih =>
    rw [checkNames]
    by_cases hseen : segment.name ∈ seen
    · simp [hseen]
    · simp only [if_neg hseen, ih, List.map_cons, List.nodup_cons, List.mem_cons, not_or,
        List.mem_map, not_exists, not_and, forall_eq_or_imp]
      constructor
      · rintro ⟨hnames, hrest⟩
        exact ⟨⟨fun other hother ↦ (hrest other hother).1, hnames⟩, hseen, fun other hother ↦
          (hrest other hother).2⟩
      · rintro ⟨⟨hfirst, hnames⟩, -, hrest⟩
        exact ⟨hnames, fun other hother ↦ ⟨hfirst other hother, hrest other hother⟩⟩

/-- A configuration can be used exactly if it lists an input and its segments have names of their
own. -/
theorem value_check_eq_ok_iff (configuration : Configuration) :
    configuration.check.value = .ok () ↔
      configuration.inputs ≠ [] ∧ (configuration.segments.map Segment.name).Nodup := by
  rw [check]
  by_cases hinputs : configuration.inputs = []
  · simp [hinputs]
  · simp [hinputs, value_checkNames_eq_ok_iff]

/-! ### Warnings -/

/-- There is one warning for each filter whose condition is not supported, in their order. -/
theorem segmentWarnings_eq (segment : Segment) : segmentWarnings segment =
    ((segment.filters.getD []).filter fun filter ↦ filter.condition ∉ Condition.supported).map
      (unknownWarning segment) := by
  rw [segmentWarnings, Segment.unknownFilters]
  congr 2
  funext filter
  rw [Bool.eq_iff_iff, Bool.not_eq_true', decide_eq_true_iff, ← Bool.not_eq_true,
    Condition.isKnown_iff_mem_supported]

/-- Where no name is repeated the walk goes on. It has then warned about all segments so far, and
seen their names. -/
theorem checkNames_append (seen : List String) (front back : List Segment)
    (hnames : (front.map Segment.name).Nodup) (hseen : ∀ segment ∈ front, segment.name ∉ seen) :
    checkNames seen (front ++ back) =
      let after := checkNames ((front.map Segment.name).reverse ++ seen) back
      ⟨front.flatMap segmentWarnings ++ after.entries, after.value⟩ := by
  induction front generalizing seen with
  | nil => rfl
  | cons segment rest ih =>
    rw [List.map_cons, List.nodup_cons] at hnames
    obtain ⟨hfirst, hnames⟩ := hnames
    have hrest : ∀ other ∈ rest, other.name ∉ segment.name :: seen := fun other hother ↦
      List.not_mem_cons_of_ne_of_not_mem
        (fun hname ↦ hfirst (List.mem_map.mpr ⟨other, hother, hname⟩))
        (hseen other (List.mem_cons_of_mem _ hother))
    rw [List.cons_append, checkNames, if_neg (hseen segment List.mem_cons_self), ih _ hnames hrest]
    simp only [List.map_cons, List.reverse_cons, List.append_assoc, List.singleton_append,
      List.flatMap_cons]

/-! ### The three ways to end -/

/-- Among names that are not all different there is a first one that repeats another. -/
theorem exists_repeatedName (segments : List Segment)
    (h : ¬(segments.map Segment.name).Nodup) : ∃ before segment after,
      segments = before ++ segment :: after ∧ (before.map Segment.name).Nodup ∧
        segment.name ∈ before.map Segment.name := by
  -- From the back: the last segment matters only if none before it repeats a name.
  induction segments using List.reverseRecOn with
  | nil => exact absurd List.nodup_nil h
  | append_singleton front last ih =>
    by_cases hfront : (front.map Segment.name).Nodup
    · refine ⟨front, last, [], rfl, hfront, not_not.mp fun hlast ↦ h ?_⟩
      rw [List.map_append, List.map_singleton]
      exact hfront.append (List.nodup_singleton _) (List.disjoint_singleton.mpr hlast)
    · obtain ⟨before, segment, after, rfl, hnames, hrepeats⟩ := ih hfront
      exact ⟨before, segment, after ++ [last], by simp, hnames, hrepeats⟩

variable {configuration : Configuration}

theorem check_of_noInputs (h : configuration.inputs = []) :
    configuration.check = ⟨[], .error .noInputs⟩ := by
  rw [check, h]
  rfl

theorem check_eq_checkNames (h : configuration.inputs ≠ []) :
    configuration.check = checkNames [] configuration.segments := by
  rw [check, List.isEmpty_eq_false_iff.mpr h]
  rfl

/-- A configuration that can be used is warned about in full. -/
theorem check_of_nodup (hinputs : configuration.inputs ≠ [])
    (hnames : (configuration.segments.map Segment.name).Nodup) :
    configuration.check = ⟨configuration.segments.flatMap segmentWarnings, .ok ()⟩ := by
  have hwalk := checkNames_append [] configuration.segments [] hnames (by simp)
  rw [List.append_nil] at hwalk
  rw [check_eq_checkNames hinputs, hwalk]
  simp [checkNames]

/-- At a repeated name the walk stops. -/
theorem check_of_repeatedName {before after : List Segment} {segment : Segment}
    (hinputs : configuration.inputs ≠ [])
    (hsegments : configuration.segments = before ++ segment :: after)
    (hnames : (before.map Segment.name).Nodup) (hrepeats : segment.name ∈ before.map Segment.name) :
    configuration.check =
      ⟨before.flatMap segmentWarnings, .error (.duplicateSegment segment.name)⟩ := by
  have hseen : segment.name ∈ (before.map Segment.name).reverse ++ [] := by simpa using hrepeats
  rw [check_eq_checkNames hinputs, hsegments, checkNames_append [] before _ hnames (by simp),
    checkNames, if_pos hseen]
  exact congrArg (Logged.mk · _) (List.append_nil _)

end Segmentation.Configuration
