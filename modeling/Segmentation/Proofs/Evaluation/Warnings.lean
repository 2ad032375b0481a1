import Mathlib
import Segmentation.Proofs.Schedule
import Segmentation.Proofs.Verdict.Agreement
import Segmentation.Report.Basic

/-!
# Warnings decide nothing

Whether a skipped filter is warned about is a setting, and one that only the log shows. `Silenced`
relates a computation to the same computation without its warnings: the result is the same, and so
is the log but for the lines of level WARN. The relation passes from one filter to evaluations and
verdicts along their binds, as each computation that follows depends on the result only. Reports
share out their work: there each order in which the lines with warnings can come leaves, without
them, an order in which the other lines can come (`exists_silenced_ofSegments`).

Where the warnings are is seen from `entries_evaluate_warning` and `entries_judge_warning`: a filter
that is looked at has a warning if its condition is unknown, and the line about its outcome follows.
-/

set_option autoImplicit false

namespace Segmentation

/-- The second computation is the first without its warnings. -/
structure Silenced {α : Type} (loud quiet : Logged α) : Prop where
  value_eq : quiet.value = loud.value
  entries_eq : quiet.entries = loud.entries.filter fun entry ↦ entry.level != .warn

namespace Silenced

variable {α β : Type} {loud quiet : Logged α}

theorem pure (a : α) : Silenced (pure a : Logged α) (pure a) := ⟨rfl, rfl⟩

theorem log {level : Log.Level} (hlevel : level ≠ .warn) (source : Log.Source) (text : String) :
    Silenced (Logged.log level source text) (Logged.log level source text) :=
  ⟨rfl, by simp [Logged.log, hlevel]⟩

theorem bind {next next' : α → Logged β} (h : Silenced loud quiet)
    (hnext : ∀ a, Silenced (next a) (next' a)) : Silenced (loud >>= next) (quiet >>= next') := by
  refine ⟨?_, ?_⟩
  · rw [Logged.value_bind, Logged.value_bind, h.value_eq, (hnext loud.value).value_eq]
  · rw [Logged.entries_bind, Logged.entries_bind, h.value_eq, h.entries_eq,
      (hnext loud.value).entries_eq, List.filter_append]

end Silenced

namespace Schedule

variable {α : Type} (schedule : Schedule) (loud : Fork → List (List Log.Entry))

/-- Tasks come in the order of another schedule, if they are, without their warnings, the tasks that
the other schedule has at that place; else they come in turn. -/
def unwarned : Schedule where
  merge fork parts :=
    if parts = (loud fork).map (List.filter fun entry ↦ entry.level != .warn) then
      (schedule.merge fork (loud fork)).filter fun entry ↦ entry.level != .warn
    else parts.flatten
  interleaves fork parts := by
    split
    · next hparts =>
      rw [hparts]
      exact (schedule.interleaves fork (loud fork)).filter _
    · exact .flatten parts

/-- Tasks without their warnings, in the order that they have with them. -/
theorem silenced_together {fork : Fork} {tasks tasks' : List (Logged α)}
    (h : List.Forall₂ Silenced tasks tasks') (hloud : loud fork = tasks.map Logged.entries) :
    Silenced (Logged.together schedule fork tasks)
      (Logged.together (schedule.unwarned loud) fork tasks') := by
  obtain ⟨hvalues, hparts⟩ : tasks'.map Logged.value = tasks.map Logged.value ∧
      tasks'.map Logged.entries =
        (tasks.map Logged.entries).map (List.filter fun entry ↦ entry.level != .warn) := by
    clear hloud
    induction h with
    | nil => exact ⟨rfl, rfl⟩
    | cons htask _ ih =>
      exact ⟨congrArg₂ List.cons htask.value_eq ih.1, congrArg₂ List.cons htask.entries_eq ih.2⟩
  refine ⟨hvalues, ?_⟩
  rw [Logged.entries_together, Logged.entries_together, hparts, ← hloud]
  exact if_pos rfl

end Schedule

namespace Settings

/-- The settings with warnings about skipped filters, or without. -/
def warning (settings : Settings) (warns : Bool) : Settings :=
  { settings with warnOnUnknownCondition := warns }

variable (settings : Settings) (event : Event)

/-- The warnings about a filter: one if its condition is unknown. -/
def warningEntries (filter : Filter) : List Log.Entry :=
  if filter.condition.isKnown then []
  else [⟨.warn, .evaluator, "Skipping filter on '" ++ filter.propertyName ++
    "' with unknown condition '" ++ filter.condition.text ++ "'"⟩]

theorem skipWarning_warning_true (filter : Filter) :
    (settings.warning true).skipWarning filter = warningEntries filter := by
  unfold skipWarning warningEntries
  cases filter.condition <;> rfl

theorem skipWarning_warning_false (filter : Filter) :
    (settings.warning false).skipWarning filter = [] := by
  unfold skipWarning
  cases filter.condition <;> rfl

theorem satisfies_warning (warns : Bool) :
    (settings.warning warns).satisfies event = settings.satisfies event := rfl

theorem outcomeEntry_warning (warns : Bool) :
    (settings.warning warns).outcomeEntry event = settings.outcomeEntry event := rfl

/-! ### Where the warnings are -/

theorem entries_check_warning (filter : Filter) :
    ((settings.warning true).check event filter).entries =
      warningEntries filter ++ [settings.outcomeEntry event filter] := by
  rw [entries_check, skipWarning_warning_true, outcomeEntry_warning]

/-- With warnings, an evaluation logs the warning and the outcome of each filter that it visits. -/
theorem entries_evaluate_warning (filters : Option (List Filter)) :
    ((settings.warning true).evaluate event filters).entries =
      ((filters.getD []).take ((filters.getD []).findIdx
        (fun filter ↦ !settings.satisfies event filter) + 1)).flatMap
          fun filter ↦ warningEntries filter ++ [settings.outcomeEntry event filter] := by
  rw [entries_evaluate, satisfies_warning]
  simp only [entries_check_warning]

/-- With warnings, a verdict logs the warning and the outcome of each filter. -/
theorem entries_judge_warning (filters : Option (List Filter)) :
    ((settings.warning true).judge event filters).entries = (filters.getD []).flatMap
      fun filter ↦ warningEntries filter ++ [settings.outcomeEntry event filter] := by
  rw [entries_judge]
  simp only [entries_check_warning]

/-! ### Without warnings -/

/-- One filter is checked alike, without its warning. -/
theorem silenced_check (filter : Filter) :
    Silenced ((settings.warning true).check event filter)
      ((settings.warning false).check event filter) := by
  refine ⟨rfl, ?_⟩
  have hwarnings : (warningEntries filter).filter (fun entry ↦ entry.level != .warn) = [] := by
    unfold warningEntries
    split <;> rfl
  have houtcome : (settings.outcomeEntry event filter).level ≠ .warn := by
    rw [level_outcomeEntry]
    split <;> decide
  rw [entries_check_warning, entries_check, skipWarning_warning_false, outcomeEntry_warning,
    List.filter_append, hwarnings]
  simp [houtcome]

theorem silenced_checkAll (filters : List Filter) :
    Silenced ((settings.warning true).checkAll event filters)
      ((settings.warning false).checkAll event filters) := by
  induction filters with
  | nil => exact .pure true
  | cons filter rest ih =>
    refine (settings.silenced_check event filter).bind fun satisfied ↦ ?_
    cases satisfied with
    | true => exact ih
    | false => exact .pure false

theorem silenced_evaluate (filters : Option (List Filter)) :
    Silenced ((settings.warning true).evaluate event filters)
      ((settings.warning false).evaluate event filters) := by
  cases filters with
  | none => exact .pure true
  | some filters => exact settings.silenced_checkAll event filters

theorem silenced_outcomesFrom (start : ℕ) (filters : List Filter) :
    Silenced ((settings.warning true).outcomesFrom event start filters)
      ((settings.warning false).outcomesFrom event start filters) := by
  induction filters generalizing start with
  | nil => exact .pure []
  | cons filter rest ih =>
    refine (settings.silenced_check event filter).bind fun satisfied ↦ ?_
    exact (ih (start + 1)).bind fun outcomes ↦ .pure _

theorem silenced_judge (filters : Option (List Filter)) :
    Silenced ((settings.warning true).judge event filters)
      ((settings.warning false).judge event filters) :=
  (settings.silenced_outcomesFrom event 0 _).bind fun _ ↦ .pure _

end Settings

namespace Report

variable (schedule : Schedule) (settings : Settings) (events : List Event)

/-- The lines of the tasks, with warnings, at each place where the reports on some segments share
out work. -/
def loudParts (segments : List Segment) : Fork → List (List Log.Entry)
  | .segments =>
    (segments.mapIdx (ofSegment schedule (settings.warning true) events)).map Logged.entries
  | .events index =>
    (segments[index]?.toList.flatMap fun segment ↦ events.map fun event ↦
      (settings.warning true).evaluate event segment.filters).map Logged.entries

theorem silenced_ofSegment {segments : List Segment} {index : ℕ} {segment : Segment}
    (hsegment : segments[index]? = some segment) :
    Silenced (ofSegment schedule (settings.warning true) events index segment)
      (ofSegment (schedule.unwarned (loudParts schedule settings events segments))
        (settings.warning false) events index segment) := by
  refine Silenced.bind (schedule.silenced_together _ ?_ ?_) fun passed ↦
    (Silenced.log (by decide) _ _).bind fun _ ↦ .pure _
  · rw [List.forall₂_map_left_iff, List.forall₂_map_right_iff, List.forall₂_same]
    exact fun event _ ↦ settings.silenced_evaluate event segment.filters
  · simp [loudParts, hsegment]

/-- The reports on segments do not depend on the warnings either. The log without warnings is, for
some schedule, the one that any given schedule leads to with them, but for the warnings. -/
theorem exists_silenced_ofSegments (segments : List Segment) : ∃ schedule' : Schedule,
    Silenced (ofSegments schedule (settings.warning true) events segments)
      (ofSegments schedule' (settings.warning false) events segments) := by
  refine ⟨schedule.unwarned (loudParts schedule settings events segments),
    schedule.silenced_together _ ?_ rfl⟩
  rw [List.forall₂_iff_get]
  refine ⟨by simp, fun i hi hi' ↦ ?_⟩
  simp only [List.get_eq_getElem, List.getElem_mapIdx]
  exact silenced_ofSegment schedule settings events (List.getElem?_eq_getElem _)

end Report

end Segmentation
