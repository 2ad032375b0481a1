import Mathlib
import Segmentation.Proofs.Schedule
import Segmentation.Report.Basic

/-!
# The members of a report

A report collects the positions of the events that pass (`positionsFrom_map`), so the report on a
segment names exactly these, in increasing order, and counts them; who evaluates which event when
does not matter, and neither do the other segments (`value_ofSegments`). `reports_compose` says what
each report holds, and that the reports on two batches of events give the reports on both: the
members of the second batch move up by the length of the first.
-/

set_option autoImplicit false

namespace Segmentation.Report

variable (settings : Settings) (events : List Event)

/-! ### Members -/

/-- The positions of the events that pass the filters of a segment. -/
def membersOf (segment : Segment) : List ℕ :=
  events.findIdxs fun event ↦ settings.passes event segment.filters

theorem mem_membersOf {segment : Segment} {i : ℕ} : i ∈ membersOf settings events segment ↔
    ∃ h : i < events.length, settings.passes events[i] segment.filters = true :=
  List.mem_findIdxs_iff_exists_getElem_pos

theorem length_membersOf_le (segment : Segment) :
    (membersOf settings events segment).length ≤ events.length := by
  rw [membersOf, List.length_findIdxs]
  exact List.countP_le_length

/-- Every event passes where there are no filters. -/
theorem passes_of_filters_eq_nil {segment : Segment} (h : segment.filters.getD [] = [])
    (event : Event) : settings.passes event segment.filters = true := by
  cases hfilters : segment.filters with
  | none => rfl
  | some filters =>
    rw [hfilters, Option.getD_some] at h
    rw [h]
    rfl

/-- The members among two batches of events are those of the first batch and then those of the
second, counted on from the first. -/
theorem membersOf_append (first second : List Event) (segment : Segment) :
    membersOf settings (first ++ second) segment =
      membersOf settings first segment ++
        (membersOf settings second segment).map (· + first.length) := by
  unfold membersOf
  rw [List.findIdxs_append, Nat.zero_add]
  congr 1
  exact List.findIdxs_start

/-! ### Reports -/

/-- The positions that are collected are those of the events that pass. -/
theorem positionsFrom_map (passes : Event → Bool) (start : ℕ) :
    positionsFrom start (events.map passes) = events.findIdxs passes start := by
  induction events generalizing start with
  | nil => rfl
  | cons event rest ih => rw [List.map_cons, positionsFrom, ih, List.findIdxs_cons]

/-- The report that names the members of a segment and counts them. -/
def onSegment (segment : Segment) : Report :=
  ⟨segment.name, events.length, (membersOf settings events segment).length,
    membersOf settings events segment⟩

theorem value_ofSegment (schedule : Schedule) (index : ℕ) (segment : Segment) :
    (ofSegment schedule settings events index segment).value =
      onSegment settings events segment := by
  have hpassed : positionsFrom 0 ((events.map fun event ↦
      settings.evaluate event segment.filters).map Logged.value) =
        membersOf settings events segment := by
    rw [List.map_map]
    exact positionsFrom_map events _ 0
  simp only [ofSegment, Logged.value_bind, Logged.value_pure, Logged.value_together, hpassed]
  rfl

/-- Each segment has its report, under every schedule. -/
theorem value_ofSegments (schedule : Schedule) (segments : List Segment) :
    (ofSegments schedule settings events segments).value =
      segments.map (onSegment settings events) := by
  rw [ofSegments, Logged.value_together]
  refine List.ext_getElem (by simp) fun i _ _ ↦ ?_
  rw [List.getElem_map, List.getElem_mapIdx, List.getElem_map, value_ofSegment]

/-- Reports have the names of their segments. -/
theorem map_name_ofSegments (schedule : Schedule) (segments : List Segment) :
    (ofSegments schedule settings events segments).value.map (·.name) =
      segments.map Segment.name := by
  rw [value_ofSegments, List.map_map]
  rfl

/-- The schedule decides about the order of the log and about nothing else. -/
theorem reordered_ofSegments (schedule schedule' : Schedule) (segments : List Segment) :
    Logged.Reordered (ofSegments schedule settings events segments)
      (ofSegments schedule' settings events segments) := by
  refine .together ?_ schedule schedule' .segments
  rw [List.forall₂_iff_get]
  refine ⟨by simp, fun i hi hi' ↦ ?_⟩
  simp only [List.get_eq_getElem, List.getElem_mapIdx]
  refine .bind (.together ?_ schedule schedule' (.events i)) fun passed ↦ .refl _
  exact List.forall₂_same.mpr fun logged _ ↦ .refl logged

/-- There is one report for each segment, in the order of the segments, whatever the schedule. It
has the name of its segment, the number of events, and as members, in increasing order and counted,
the positions of the events that the evaluation accepts; without filters these are all. Reported on
in two batches, each segment has the members of the first batch and then those of the second, moved
up by the length of the first. -/
theorem reports_compose (segments : List Segment) :
    (∀ schedule : Schedule,
      List.Forall₂ (fun (segment : Segment) (report : Report) ↦
        report.name = segment.name ∧ report.members.Pairwise (· < ·) ∧
          (∀ i, i ∈ report.members ↔ ∃ h : i < events.length,
            (settings.evaluate events[i] segment.filters).value = true) ∧
          (segment.filters.getD [] = [] → ∀ i, i ∈ report.members ↔ i < events.length) ∧
          report.matched = report.members.length ∧ report.matched ≤ report.total ∧
          report.total = events.length)
        segments (ofSegments schedule settings events segments).value) ∧
      ∀ (first second : List Event) (whole front back : Schedule),
        (ofSegments whole settings (first ++ second) segments).value.map (·.members) =
          List.zipWith (fun front back ↦ front.members ++ back.members.map (· + first.length))
            (ofSegments front settings first segments).value
            (ofSegments back settings second segments).value := by
  constructor
  · intro schedule
    rw [value_ofSegments, List.forall₂_map_right_iff, List.forall₂_same]
    intro segment _
    refine ⟨rfl, List.pairwise_findIdxs, fun i ↦ mem_membersOf settings events, ?_, rfl,
      length_membersOf_le settings events segment, rfl⟩
    intro hnone i
    refine (mem_membersOf settings events).trans ⟨fun h ↦ h.1, fun hi ↦ ⟨hi, ?_⟩⟩
    exact passes_of_filters_eq_nil settings hnone events[i]
  · intro first second whole front back
    simp only [value_ofSegments, List.map_map, List.zipWith_map, List.zipWith_self]
    exact List.map_congr_left fun segment _ ↦ membersOf_append settings first second segment

end Segmentation.Report
