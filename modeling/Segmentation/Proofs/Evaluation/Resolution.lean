import Mathlib
import Segmentation.Proofs.Verdict.Agreement

/-!
# What names resolve to

An evaluation looks at an event only through the properties that the names of its filters resolve
to. Two evaluations that look alike on every filter of a list (`AlikeOn`) are the same, with their
verdicts and their logs (`evaluate_congr`, `judge_congr`), and they look alike wherever the name of
the filter resolves to the same property (`alikeOn_of_resolve`).

This settles what the lookup of paths can change. A name is plain for a separator if it is the name
of a property or does not contain the separator; such a name is never followed as a path
(`lookup?_of_isPlain`). So looking up paths, with whatever separator, changes an evaluation only
through names that are not plain (`paths_extend_names`).
-/

set_option autoImplicit false

namespace Segmentation

namespace Settings

/-! ### Evaluations that look alike -/

section Congruence

variable {first second : Settings} {event other : Event}

/-- Two settings, each with an event, give one filter the same result, reason and log lines. -/
structure AlikeOn (first : Settings) (event : Event) (second : Settings) (other : Event)
    (filter : Filter) : Prop where
  check_eq : first.check event filter = second.check other filter
  reason_eq : first.reason event filter = second.reason other filter

theorem AlikeOn.refl (settings : Settings) (event : Event) (filter : Filter) :
    AlikeOn settings event settings event filter := ⟨rfl, rfl⟩

theorem AlikeOn.trans_symm {third : Settings} {filter : Filter}
    (h : AlikeOn first event third event filter) (h' : AlikeOn second event third event filter) :
    AlikeOn first event second event filter :=
  ⟨h.check_eq.trans h'.check_eq.symm, h.reason_eq.trans h'.reason_eq.symm⟩

/-- Filters are treated alike if their names resolve to the same property and skipped filters are
reported alike. -/
theorem alikeOn_of_resolve {filter : Filter}
    (hwarn : first.warnOnUnknownCondition = second.warnOnUnknownCondition)
    (hresolve : first.resolve event filter.propertyName =
      second.resolve other filter.propertyName) : AlikeOn first event second other filter := by
  have hsatisfies : first.satisfies event filter = second.satisfies other filter := by
    rw [satisfies, satisfies, hresolve]
  have hwarning : first.skipWarning filter = second.skipWarning filter := by
    unfold skipWarning
    rw [hwarn]
  have hentry : first.outcomeEntry event filter = second.outcomeEntry other filter := by
    rw [outcomeEntry, outcomeEntry, hsatisfies, hresolve]
  exact ⟨by rw [check, check, hwarning, hentry, hsatisfies],
    by rw [reason, reason, hresolve, hsatisfies]⟩

theorem checkAll_congr {filters : List Filter}
    (h : ∀ filter ∈ filters, AlikeOn first event second other filter) :
    first.checkAll event filters = second.checkAll other filters := by
  induction filters with
  | nil => rfl
  | cons filter rest ih =>
    rw [checkAll, checkAll, (h filter List.mem_cons_self).check_eq,
      ih fun filter hfilter ↦ h filter (List.mem_cons_of_mem _ hfilter)]

theorem outcomesFrom_congr {filters : List Filter}
    (h : ∀ filter ∈ filters, AlikeOn first event second other filter) (start : ℕ) :
    first.outcomesFrom event start filters = second.outcomesFrom other start filters := by
  induction filters generalizing start with
  | nil => rfl
  | cons filter rest ih =>
    have hfilter := h filter List.mem_cons_self
    rw [outcomesFrom, outcomesFrom, hfilter.check_eq, hfilter.reason_eq,
      ih fun filter hfilter ↦ h filter (List.mem_cons_of_mem _ hfilter)]

theorem evaluate_congr {filters : Option (List Filter)}
    (h : ∀ filter ∈ filters.getD [], AlikeOn first event second other filter) :
    first.evaluate event filters = second.evaluate other filters := by
  cases filters with
  | none => rfl
  | some filters => exact checkAll_congr h

theorem judge_congr {filters : Option (List Filter)}
    (h : ∀ filter ∈ filters.getD [], AlikeOn first event second other filter) :
    first.judge event filters = second.judge other filters := by
  rw [judge, judge, outcomesFrom_congr h]

/-- Verdicts have the same outcome wherever the filters are treated alike. -/
theorem getElem?_outcomes_congr {filters : Option (List Filter)} {position : ℕ} {filter : Filter}
    (hfilter : (filters.getD [])[position]? = some filter)
    (h : AlikeOn first event second other filter) :
    (first.judge event filters).value.outcomes[position]? =
      (second.judge other filters).value.outcomes[position]? := by
  have hsatisfies : first.satisfies event filter = second.satisfies other filter :=
    congrArg Logged.value h.check_eq
  rw [outcomes_judge, outcomes_judge, List.getElem?_mapIdx, List.getElem?_mapIdx, hfilter,
    Option.map_some, Option.map_some, outcomeAt, outcomeAt, hsatisfies, h.reason_eq]

end Congruence

end Settings

/-! ### Plain names -/

namespace Event

theorem segments_of_not_mem {separator : Char} {path : String} (h : separator ∉ path.toList) :
    segments separator path = [path] := by
  rw [segments, Text.splitAt_of_not_mem h, List.map_singleton, String.ofList_toList]

/-- The name is never followed as a path: it is the name of a property, or it contains no
separator. -/
def IsPlain (event : Event) (separator : Char) (name : String) : Prop :=
  (event.get? name).isSome = true ∨ separator ∉ name.toList

/-- A plain name leads to the property of that name. -/
theorem lookup?_of_isPlain {event : Event} {separator : Char} {name : String}
    (h : event.IsPlain separator name) : event.lookup? separator name = event.get? name := by
  unfold lookup?
  cases hname : event.get? name with
  | some value => rfl
  | none =>
    rw [segments_of_not_mem (h.resolve_left (by simp [hname]))]
    exact hname

end Event

namespace Settings

variable (settings : Settings)

/-- The settings with names taken as they are. -/
def flat : Settings := { settings with nestedPaths := false }

/-- The settings with names followed as paths. -/
def following (separator : Char) : Settings :=
  { settings with nestedPaths := true, pathSeparator := separator }

theorem alikeOn_following {event : Event} {separator : Char} {filter : Filter}
    (h : event.IsPlain separator filter.propertyName) :
    AlikeOn (settings.following separator) event settings.flat event filter := by
  refine alikeOn_of_resolve rfl ?_
  have hlookup := Event.lookup?_of_isPlain h
  simp only [resolve, following, flat, if_true, Bool.false_eq_true, if_false, hlookup]

/-- The settings without paths and with paths of either of two separators. -/
def lookupModes (s s' : Char) : List Settings :=
  [settings.flat, settings.following s, settings.following s']

/-- All ways of looking up names treat a filter alike whose name is plain for both separators. -/
theorem alikeOn_lookupModes {event : Event} {s s' : Char} {filter : Filter}
    (h : event.IsPlain s filter.propertyName) (h' : event.IsPlain s' filter.propertyName)
    {first second : Settings} (hfirst : first ∈ settings.lookupModes s s')
    (hsecond : second ∈ settings.lookupModes s s') : AlikeOn first event second event filter := by
  have hflat : ∀ mode ∈ settings.lookupModes s s',
      AlikeOn mode event settings.flat event filter := by
    simp only [lookupModes, List.forall_mem_cons, List.not_mem_nil, false_imp_iff, implies_true,
      and_true]
    exact ⟨.refl _ _ _, settings.alikeOn_following h, settings.alikeOn_following h'⟩
  exact (hflat first hfirst).trans_symm (hflat second hsecond)

/-- Looking up paths only extends what names can mean. If every name is that of a property or
contains neither of two separators, then an evaluation, its verdict and its log are the same without
paths and with paths of either separator. For any list, the outcomes without paths and with paths of
either separator differ at most for filters whose name is not that of a property and contains a
separator. -/
theorem paths_extend_names (event : Event) (filters : Option (List Filter)) (s s' : Char) :
    ((∀ filter ∈ filters.getD [], (event.get? filter.propertyName).isSome = true ∨
        s ∉ filter.propertyName.toList ∧ s' ∉ filter.propertyName.toList) →
      ∀ first ∈ settings.lookupModes s s', ∀ second ∈ settings.lookupModes s s',
        first.evaluate event filters = second.evaluate event filters ∧
          first.judge event filters = second.judge event filters) ∧
    ∀ first ∈ settings.lookupModes s s', ∀ second ∈ settings.lookupModes s s',
      ∀ (position : ℕ) (filter : Filter), (filters.getD [])[position]? = some filter →
        (first.judge event filters).value.outcomes[position]? ≠
          (second.judge event filters).value.outcomes[position]? →
        event.get? filter.propertyName = none ∧
          (s ∈ filter.propertyName.toList ∨ s' ∈ filter.propertyName.toList) := by
  constructor
  · intro hplain first hfirst second hsecond
    have halike : ∀ filter ∈ filters.getD [], AlikeOn first event second event filter :=
      fun filter hfilter ↦ settings.alikeOn_lookupModes
        ((hplain filter hfilter).imp_right And.left)
        ((hplain filter hfilter).imp_right And.right) hfirst hsecond
    exact ⟨evaluate_congr halike, judge_congr halike⟩
  · intro first hfirst second hsecond position filter hfilter hdiffer
    by_contra hname
    have hplain : event.IsPlain s filter.propertyName ∧ event.IsPlain s' filter.propertyName := by
      unfold Event.IsPlain
      rw [Option.isSome_iff_ne_none]
      tauto
    exact hdiffer (getElem?_outcomes_congr hfilter
      (settings.alikeOn_lookupModes hplain.1 hplain.2 hfirst hsecond))

/-- A null property whose name is also a path to a value, and a name without separators. -/
theorem paths_extend_names_hidden :
    let event := Event.ofList [("a.b", .null), ("a", .object [("b", .string "x")]),
      ("c", .string "y")]
    let filters := some [Filter.ofTexts "a.b" "is" "x", Filter.ofTexts "c" "is not" "x"]
    (∀ filter ∈ filters.getD [], (event.get? filter.propertyName).isSome = true ∨
        '.' ∉ filter.propertyName.toList ∧ '/' ∉ filter.propertyName.toList) ∧
      ((default : Settings).following '.').evaluate event filters =
        (default : Settings).flat.evaluate event filters ∧
      (((default : Settings).flat.judge event filters).value.outcomes.map (·.reason)) =
        [.missingProperty, .matched] := by
  intro event filters
  have hplain : ∀ filter ∈ filters.getD [], (event.get? filter.propertyName).isSome = true ∨
      '.' ∉ filter.propertyName.toList ∧ '/' ∉ filter.propertyName.toList := by
    decide
  have hsame := ((default : Settings).paths_extend_names event filters '.' '/').1 hplain
    ((default : Settings).following '.') (by simp [lookupModes])
    (default : Settings).flat (by simp [lookupModes])
  exact ⟨hplain, hsame.1, by decide⟩

end Settings

end Segmentation
