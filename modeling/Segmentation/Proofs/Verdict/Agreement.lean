import Mathlib
import Segmentation.Verdict

/-!
# Evaluations and verdicts agree

An evaluation stops at the first filter that is not satisfied, a verdict looks at all of them. Both
walk along the list with the same step, `Settings.check`. `value_checkAll` and `entries_checkAll`
describe the short walk in terms of the step alone, `value_outcomesFrom` and `entries_outcomesFrom`
the full one. `judge_agrees_with_evaluate` compares the two: the answer is the same, the outcomes
are those of the filters in their order, and the log of the evaluation is the log of the verdict cut
after the line of the first filter that is not satisfied, which is its only line of level DEBUG.
-/

set_option autoImplicit false

namespace Segmentation.Settings

variable (settings : Settings) (event : Event)

/-! ### One filter -/

@[simp] theorem value_check (filter : Filter) :
    (settings.check event filter).value = settings.satisfies event filter := rfl

@[simp] theorem entries_check (filter : Filter) :
    (settings.check event filter).entries =
      settings.skipWarning filter ++ [settings.outcomeEntry event filter] := rfl

/-- A warning is no line about an outcome. -/
theorem level_of_mem_skipWarning {filter : Filter} {entry : Log.Entry}
    (h : entry ∈ settings.skipWarning filter) : entry.level = .warn := by
  unfold skipWarning at h
  split at h
  · split at h
    · rw [List.mem_singleton.mp h]
    · exact absurd h List.not_mem_nil
  · exact absurd h List.not_mem_nil

/-- The line about a filter is of level DEBUG exactly if the filter is not satisfied. -/
theorem level_outcomeEntry (filter : Filter) :
    (settings.outcomeEntry event filter).level =
      if settings.satisfies event filter then .trace else .debug := by
  unfold outcomeEntry
  split <;> rfl

/-- What is logged about a satisfied filter has no line of level DEBUG. -/
theorem level_ne_debug_of_satisfies {filter : Filter} (h : settings.satisfies event filter = true)
    {entry : Log.Entry} (hentry : entry ∈ (settings.check event filter).entries) :
    entry.level ≠ .debug := by
  rw [entries_check] at hentry
  rcases List.mem_append.mp hentry with hwarning | houtcome
  · rw [settings.level_of_mem_skipWarning hwarning]
    decide
  · rw [List.mem_singleton.mp houtcome, level_outcomeEntry, if_pos h]
    decide

/-! ### The short walk -/

/-- An evaluation answers whether all filters are satisfied. -/
theorem value_checkAll (filters : List Filter) :
    (settings.checkAll event filters).value = filters.all (settings.satisfies event) := by
  induction filters with
  | nil => rfl
  | cons filter rest ih =>
    rw [checkAll, Logged.value_bind, value_check, List.all_cons]
    by_cases hfilter : settings.satisfies event filter = true
    · rw [if_pos hfilter, ih, hfilter, Bool.true_and]
    · rw [if_neg hfilter, eq_false_of_ne_true hfilter, Bool.false_and]
      rfl

/-- An evaluation logs the lines of the filters up to and including the first that is not
satisfied. -/
theorem entries_checkAll (filters : List Filter) :
    (settings.checkAll event filters).entries =
      (filters.take (filters.findIdx (fun filter ↦ !settings.satisfies event filter) + 1)).flatMap
        fun filter ↦ (settings.check event filter).entries := by
  induction filters with
  | nil => rfl
  | cons filter rest ih =>
    rw [checkAll, Logged.entries_bind, value_check, List.findIdx_cons]
    by_cases hfilter : settings.satisfies event filter = true
    · rw [if_pos hfilter, ih, hfilter]
      rfl
    · rw [if_neg hfilter, eq_false_of_ne_true hfilter]
      simp

theorem value_evaluate (filters : Option (List Filter)) :
    (settings.evaluate event filters).value = (filters.getD []).all (settings.satisfies event) := by
  cases filters with
  | none => rfl
  | some filters => exact settings.value_checkAll event filters

theorem entries_evaluate (filters : Option (List Filter)) :
    (settings.evaluate event filters).entries =
      ((filters.getD []).take ((filters.getD []).findIdx
        (fun filter ↦ !settings.satisfies event filter) + 1)).flatMap
          fun filter ↦ (settings.check event filter).entries := by
  cases filters with
  | none => rfl
  | some filters => exact settings.entries_checkAll event filters

/-! ### The full walk -/

/-- The outcome of the filter at a position. -/
def outcomeAt (position : ℕ) (filter : Filter) : Outcome :=
  ⟨position, filter.propertyName, filter.condition, settings.satisfies event filter,
    settings.reason event filter⟩

theorem value_outcomesFrom (start : ℕ) (filters : List Filter) :
    (settings.outcomesFrom event start filters).value =
      filters.mapIdx fun i filter ↦ settings.outcomeAt event (start + i) filter := by
  induction filters generalizing start with
  | nil => rfl
  | cons filter rest ih =>
    have hshift : (fun i filter ↦ settings.outcomeAt event (start + 1 + i) filter) =
        fun i filter ↦ settings.outcomeAt event (start + (i + 1)) filter := by
      funext i filter
      rw [Nat.add_assoc, Nat.add_comm 1]
    rw [List.mapIdx_cons, ← hshift, ← ih (start + 1)]
    rfl

theorem entries_outcomesFrom (start : ℕ) (filters : List Filter) :
    (settings.outcomesFrom event start filters).entries =
      filters.flatMap fun filter ↦ (settings.check event filter).entries := by
  induction filters generalizing start with
  | nil => rfl
  | cons filter rest ih =>
    rw [outcomesFrom, Logged.entries_bind, Logged.entries_bind, ih, Logged.entries_pure,
      List.append_nil, List.flatMap_cons]

theorem outcomes_judge (filters : Option (List Filter)) :
    (settings.judge event filters).value.outcomes =
      (filters.getD []).mapIdx (settings.outcomeAt event) := by
  have hwalk := settings.value_outcomesFrom event 0 (filters.getD [])
  simp only [Nat.zero_add] at hwalk
  exact hwalk

theorem entries_judge (filters : Option (List Filter)) :
    (settings.judge event filters).entries =
      (filters.getD []).flatMap fun filter ↦ (settings.check event filter).entries := by
  rw [judge, Logged.entries_bind, entries_outcomesFrom, Logged.entries_pure, List.append_nil]

theorem passed_judge (filters : Option (List Filter)) :
    (settings.judge event filters).value.passed =
      (filters.getD []).all (settings.satisfies event) := by
  have hall : (settings.judge event filters).value.passed =
      (settings.judge event filters).value.outcomes.all (·.satisfied) := rfl
  rw [hall, outcomes_judge]
  generalize filters.getD [] = list
  apply Bool.eq_iff_iff.mpr
  simp only [List.all_eq_true, List.mem_mapIdx]
  constructor
  · intro h filter hfilter
    obtain ⟨i, hi, rfl⟩ := List.mem_iff_getElem.mp hfilter
    exact h _ ⟨i, hi, rfl⟩
  · rintro h _ ⟨i, hi, rfl⟩
    exact h _ (List.getElem_mem hi)

/-- The failures of a verdict are the positions of the filters that are not satisfied. -/
theorem failures_judge (filters : Option (List Filter)) :
    (settings.judge event filters).value.failures =
      (List.range (filters.getD []).length).filter fun i ↦
        (filters.getD [])[i]?.any fun filter ↦ !settings.satisfies event filter := by
  rw [Verdict.failures, outcomes_judge]
  generalize filters.getD [] = list
  induction list using List.reverseRecOn with
  | nil => rfl
  | append_singleton front last ih =>
    have hfront : (List.range front.length).filter (fun i ↦
        (front ++ [last])[i]?.any fun filter ↦ !settings.satisfies event filter) =
        (List.range front.length).filter fun i ↦
          front[i]?.any fun filter ↦ !settings.satisfies event filter := by
      apply List.filter_congr
      intro i hi
      rw [List.getElem?_append_left (List.mem_range.mp hi)]
    rw [List.mapIdx_concat, List.filter_append, List.map_append, ih, List.length_append,
      List.length_singleton, List.range_succ, List.filter_append, hfront]
    congr 1
    cases hlast : settings.satisfies event last <;> simp [outcomeAt, hlast]

/-! ### The comparison -/

/-- The log of an evaluation ends with its only line of level DEBUG, which is about the first filter
that is not satisfied; the log of an evaluation that succeeds has no such line. -/
theorem debug_entries_evaluate (filters : Option (List Filter)) :
    ∃ log : List Log.Entry, (∀ entry ∈ log, entry.level ≠ .debug) ∧
      (settings.evaluate event filters).entries =
        log ++ (((filters.getD []).find? fun filter ↦ !settings.satisfies event filter).map
          (settings.outcomeEntry event)).toList := by
  rw [entries_evaluate]
  generalize filters.getD [] = list
  induction list with
  | nil => exact ⟨[], by simp, rfl⟩
  | cons filter rest ih =>
    by_cases hfilter : settings.satisfies event filter = true
    · obtain ⟨log, hlog, hrest⟩ := ih
      refine ⟨(settings.check event filter).entries ++ log, ?_, ?_⟩
      · intro entry hentry
        rcases List.mem_append.mp hentry with hhead | htail
        · exact settings.level_ne_debug_of_satisfies event hfilter hhead
        · exact hlog entry htail
      · rw [List.find?_cons_of_neg (by simp [hfilter]), List.findIdx_cons, hfilter,
          List.append_assoc, ← hrest]
        rfl
    · refine ⟨settings.skipWarning filter, ?_, ?_⟩
      · intro entry hentry
        rw [settings.level_of_mem_skipWarning hentry]
        decide
      · rw [List.findIdx_cons, List.find?_cons, eq_false_of_ne_true hfilter]
        simp

/-- A verdict has no failures exactly if the event passes. -/
theorem failures_judge_eq_nil_iff (filters : Option (List Filter)) :
    (settings.judge event filters).value.failures = [] ↔
      (settings.judge event filters).value.passed = true := by
  rw [failures_judge, passed_judge, List.filter_eq_nil_iff, List.all_eq_true]
  generalize filters.getD [] = list
  constructor
  · intro hnone filter hfilter
    obtain ⟨i, hi, rfl⟩ := List.mem_iff_getElem.mp hfilter
    simpa [List.getElem?_eq_getElem hi] using hnone i (List.mem_range.mpr hi)
  · intro hsatisfied i hi
    have hlt := List.mem_range.mp hi
    simp [List.getElem?_eq_getElem hlt, hsatisfied _ (List.getElem_mem hlt)]

/-- The log of an evaluation is the front of the log of a verdict. -/
theorem entries_evaluate_prefix (filters : Option (List Filter)) :
    (settings.evaluate event filters).entries <+: (settings.judge event filters).entries := by
  rw [entries_evaluate, entries_judge]
  generalize filters.getD [] = list
  refine ⟨(list.drop (list.findIdx (fun filter ↦ !settings.satisfies event filter) + 1)).flatMap
    fun filter ↦ (settings.check event filter).entries, ?_⟩
  rw [← List.flatMap_append, List.take_append_drop]

/-- The answer is negative exactly if some filter is not satisfied. -/
theorem value_evaluate_eq_true_iff (filters : Option (List Filter)) :
    (settings.evaluate event filters).value = true ↔
      (filters.getD []).find? (fun filter ↦ !settings.satisfies event filter) = none := by
  rw [value_evaluate, List.all_eq_true, List.find?_eq_none]
  simp only [Bool.not_eq_true', Bool.not_eq_false]

/-- An evaluation and a verdict on the same event and filters agree. The answer is the same. The
verdict has one outcome for each filter, in the order of the list. The failures are the positions of
the filters that are not satisfied, in increasing order, and there are none exactly if the event
passes. The log of the evaluation is that of a verdict on the filters up to and including the first
that is not satisfied, hence a prefix of the log of the whole verdict; it has a line of level DEBUG
exactly if the answer is negative, and then exactly one, which is its last line and about that
filter. -/
theorem judge_agrees_with_evaluate (filters : Option (List Filter)) :
    let list := filters.getD []
    let verdict := settings.judge event filters
    let evaluation := settings.evaluate event filters
    let unsatisfied := fun filter ↦ !(settings.check event filter).value
    verdict.value.passed = evaluation.value ∧
      verdict.value.outcomes = list.mapIdx (fun i filter ↦
        ⟨i, filter.propertyName, filter.condition, (settings.check event filter).value,
          settings.reason event filter⟩) ∧
      verdict.value.failures =
        (List.range list.length).filter (fun i ↦ list[i]?.any unsatisfied) ∧
      verdict.value.failures.Pairwise (· < ·) ∧
      (verdict.value.failures = [] ↔ verdict.value.passed = true) ∧
      evaluation.entries =
        (settings.judge event (some (list.take (list.findIdx unsatisfied + 1)))).entries ∧
      evaluation.entries <+: verdict.entries ∧
      (evaluation.value = true → ∀ entry ∈ evaluation.entries, entry.level ≠ .debug) ∧
      (evaluation.value = false → ∃ log filter, list.find? unsatisfied = some filter ∧
        evaluation.entries = log ++ [settings.outcomeEntry event filter] ∧
        (settings.outcomeEntry event filter).level = .debug ∧
        ∀ entry ∈ log, entry.level ≠ .debug) := by
  intro list verdict evaluation unsatisfied
  have hpassed : verdict.value.passed = evaluation.value :=
    (settings.passed_judge event filters).trans (settings.value_evaluate event filters).symm
  have hfailures : verdict.value.failures =
      (List.range list.length).filter fun i ↦ list[i]?.any unsatisfied :=
    settings.failures_judge event filters
  have hanswer : evaluation.value = true ↔ list.find? unsatisfied = none :=
    settings.value_evaluate_eq_true_iff event filters
  obtain ⟨log, hlog, hdebug⟩ := settings.debug_entries_evaluate event filters
  have hentries : evaluation.entries =
      log ++ ((list.find? unsatisfied).map (settings.outcomeEntry event)).toList := hdebug
  refine ⟨hpassed, settings.outcomes_judge event filters, hfailures, ?_,
    settings.failures_judge_eq_nil_iff event filters, ?_,
    settings.entries_evaluate_prefix event filters, ?_, ?_⟩
  · rw [hfailures]
    exact List.pairwise_lt_range.filter _
  · rw [entries_judge]
    exact settings.entries_evaluate event filters
  · intro htrue
    rw [hentries, hanswer.mp htrue, Option.map_none, Option.toList_none, List.append_nil]
    exact hlog
  · intro hfalse
    have hsome : list.find? unsatisfied ≠ none := by
      intro hnone
      rw [hanswer.mpr hnone] at hfalse
      exact Bool.noConfusion hfalse
    obtain ⟨filter, hfilter⟩ := Option.ne_none_iff_exists'.mp hsome
    have hunsatisfied : settings.satisfies event filter = false := by
      simpa [unsatisfied] using List.find?_some hfilter
    refine ⟨log, filter, hfilter, ?_, ?_, hlog⟩
    · rw [hentries, hfilter]
      rfl
    · rw [level_outcomeEntry, hunsatisfied]
      rfl

end Segmentation.Settings
