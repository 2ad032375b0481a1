import Mathlib
import Segmentation.Proofs.Evaluation.Conjunction
import Segmentation.Proofs.Evaluation.Missing

/-!
# The reasons of outcomes

The reason of an outcome is found apart from its answer: it asks whether the condition is known,
then whether the name resolves to a property, and only then for the answer. `Explains` says what a
reason has to tell in terms of the condition and of the property, without the verdict: a filter is
skipped exactly if its condition is none of the supported ones, and a property is reported missing
exactly if it is absent or null. Every outcome explains its filter in this sense
(`outcomes_explain`).
-/

set_option autoImplicit false

namespace Segmentation

namespace Condition

/-- A text is read as a supported condition exactly if it is the text of one. -/
theorem parse_mem_supported_iff {text : String} :
    parse text ∈ supported ↔ text ∈ supported.map Condition.text := by
  constructor
  · intro h
    exact List.mem_map.mpr ⟨parse text, h, text_parse text⟩
  · rintro h
    obtain ⟨condition, hcondition, rfl⟩ := List.mem_map.mp h
    rwa [parse_text_of_mem_supported hcondition]

/-- Of the supported conditions a missing property meets two, whatever the operand. -/
theorem holds_none_iff {condition : Condition} (h : condition ∈ supported) (operand : String) :
    condition.holds none operand = true ↔ condition = .isNot ∨ condition = .isEmpty := by
  simp only [supported, List.mem_cons, List.not_mem_nil, or_false] at h
  rcases h with rfl | rfl | rfl | rfl | rfl | rfl | rfl | rfl | rfl | rfl | rfl | rfl <;>
    simp [holds]

end Condition

namespace Settings

variable (settings : Settings) (event : Event) (filter : Filter)

/-! ### When a reason is given -/

open Classical in
/-- The condition comes first, then the property, and only then the answer. -/
theorem reason_eq : settings.reason event filter =
    if filter.condition ∉ Condition.supported then .unknownCondition
    else if IsMissing settings event filter.propertyName then .missingProperty
    else if settings.satisfies event filter then .matched
    else .notMatched := by
  simp only [reason, ← resolve_eq_none_iff, ← Condition.isKnown_iff_mem_supported,
    Option.isNone_iff_eq_none, Bool.not_eq_true, Bool.not_eq_eq_eq_not, Bool.not_true]

variable {filter}

theorem reason_eq_unknownCondition_iff :
    settings.reason event filter = .unknownCondition ↔
      filter.condition ∉ Condition.supported := by
  rw [reason_eq]
  split_ifs <;> simp_all

theorem reason_eq_missingProperty_iff :
    settings.reason event filter = .missingProperty ↔
      filter.condition ∈ Condition.supported ∧
        IsMissing settings event filter.propertyName := by
  rw [reason_eq]
  split_ifs <;> simp_all

theorem reason_eq_matched_iff :
    settings.reason event filter = .matched ↔
      filter.condition ∈ Condition.supported ∧
        ¬IsMissing settings event filter.propertyName ∧
        settings.satisfies event filter = true := by
  rw [reason_eq]
  split_ifs <;> simp_all

theorem reason_eq_notMatched_iff :
    settings.reason event filter = .notMatched ↔
      filter.condition ∈ Condition.supported ∧
        ¬IsMissing settings event filter.propertyName ∧
        settings.satisfies event filter = false := by
  rw [reason_eq]
  split_ifs <;> simp_all

/-- Whether a filter on a missing property is satisfied is up to its condition. -/
theorem satisfies_of_isMissing (h : filter.condition ∈ Condition.supported)
    (hmissing : IsMissing settings event filter.propertyName) (operand : String) :
    settings.satisfies event { filter with operand := operand } = true ↔
      filter.condition = .isNot ∨ filter.condition = .isEmpty := by
  rw [satisfies, resolve_eq_none_iff.mpr hmissing]
  exact Condition.holds_none_iff h operand

/-! ### What a reason tells -/

/-- The outcome of a filter gives the true reason for its answer. -/
structure Explains (filter : Filter) (outcome : Outcome) : Prop where
  /-- The answer is that of the filter by itself. -/
  satisfied_eq : outcome.satisfied = settings.satisfies event filter
  /-- The condition is reported unknown exactly if it is not supported. -/
  unknownCondition_iff : outcome.reason = .unknownCondition ↔
    filter.condition ∉ Condition.supported
  /-- For a condition that was read from a text, this is a matter of the text. -/
  unknownCondition_iff_text : ∀ text, filter.condition = .parse text →
    (outcome.reason = .unknownCondition ↔ text ∉ Condition.supported.map Condition.text)
  /-- A filter with an unknown condition never fails. -/
  satisfied_of_unknownCondition : outcome.reason = .unknownCondition → outcome.satisfied = true
  /-- Otherwise the property is reported missing exactly if it is absent or null. -/
  missingProperty_iff : outcome.reason = .missingProperty ↔
    filter.condition ∈ Condition.supported ∧ IsMissing settings event filter.propertyName
  satisfied_of_missingProperty : outcome.reason = .missingProperty →
    (outcome.satisfied = true ↔ filter.condition = .isNot ∨ filter.condition = .isEmpty)
  /-- A filter that fails for want of its property fails with every operand. -/
  not_satisfies_of_missingProperty : outcome.reason = .missingProperty →
    outcome.satisfied = false → ∀ operand,
      settings.satisfies event { filter with operand := operand } = false
  /-- Otherwise the reason repeats the answer: what matched never fails. -/
  matched_iff : outcome.reason = .matched ↔ filter.condition ∈ Condition.supported ∧
    ¬IsMissing settings event filter.propertyName ∧ outcome.satisfied = true
  /-- And what did not match always fails. -/
  notMatched_iff : outcome.reason = .notMatched ↔ filter.condition ∈ Condition.supported ∧
    ¬IsMissing settings event filter.propertyName ∧ outcome.satisfied = false

theorem explains_outcomeAt (position : ℕ) (filter : Filter) :
    settings.Explains event filter (settings.outcomeAt event position filter) where
  satisfied_eq := rfl
  unknownCondition_iff := settings.reason_eq_unknownCondition_iff event
  unknownCondition_iff_text text htext := by
    rw [← Condition.parse_mem_supported_iff, ← htext]
    exact settings.reason_eq_unknownCondition_iff event
  satisfied_of_unknownCondition hreason := by
    have hunknown := (settings.reason_eq_unknownCondition_iff event).mp hreason
    refine settings.satisfies_of_not_isKnown event (Bool.eq_false_of_not_eq_true ?_)
    exact mt Condition.isKnown_iff_mem_supported.mp hunknown
  missingProperty_iff := settings.reason_eq_missingProperty_iff event
  satisfied_of_missingProperty hreason := by
    obtain ⟨hknown, hmissing⟩ := (settings.reason_eq_missingProperty_iff event).mp hreason
    exact settings.satisfies_of_isMissing event hknown hmissing filter.operand
  not_satisfies_of_missingProperty hreason hfails operand := by
    obtain ⟨hknown, hmissing⟩ := (settings.reason_eq_missingProperty_iff event).mp hreason
    have hoperand := settings.satisfies_of_isMissing event hknown hmissing
    rw [← Bool.not_eq_true, hoperand, ← hoperand filter.operand, Bool.not_eq_true]
    exact hfails
  matched_iff := settings.reason_eq_matched_iff event
  notMatched_iff := settings.reason_eq_notMatched_iff event

/-- A verdict has one outcome for each filter, in the order of the list, and each of them explains
its filter. -/
theorem outcomes_explain (filters : Option (List Filter)) :
    List.Forall₂ (settings.Explains event) (filters.getD [])
      (settings.judge event filters).value.outcomes := by
  rw [outcomes_judge, List.forall₂_iff_get]
  refine ⟨(List.length_mapIdx).symm, fun i hi hi' ↦ ?_⟩
  rw [List.get_eq_getElem, List.get_eq_getElem, List.getElem_mapIdx]
  exact settings.explains_outcomeAt event i _

/-- A null property that hides a value, a path with a scalar half-way, one with a null half-way, an
unknown condition, and a property that is there. The first filter fails with every operand. -/
theorem outcomes_explain_hidden :
    let event := Event.ofList [("a", .object [("b", .string "x"), ("c", .string "y")]),
      ("a.b", .null), ("n", .null)]
    let filters := [Filter.ofTexts "a.b" "is" "x", .ofTexts "a.c.d" "is not" "y",
      .ofTexts "n.m" "is empty" "", .ofTexts "a.b" "equals" "x", .ofTexts "a.c" "contains" "y",
      .ofTexts "a.c" "is" "x"]
    let outcomes := ((default : Settings).judge event (some filters)).value.outcomes
    outcomes.map (fun outcome ↦ (outcome.reason, outcome.satisfied)) =
        [(.missingProperty, false), (.missingProperty, true), (.missingProperty, true),
          (.unknownCondition, true), (.matched, true), (.notMatched, false)] ∧
      ∀ operand, (default : Settings).satisfies event ⟨"a.b", .is, operand⟩ = false := by
  intro event filters outcomes
  obtain ⟨first, others, hfirst, -, -⟩ := List.forall₂_cons_left_iff.mp
    ((default : Settings).outcomes_explain event (some filters))
  have hmissing := hfirst.missingProperty_iff.mpr ⟨List.mem_cons_self, .null rfl⟩
  have hfails : first.satisfied = false := by
    rw [← Bool.not_eq_true, hfirst.satisfied_of_missingProperty hmissing]
    decide
  exact ⟨by decide, hfirst.not_satisfies_of_missingProperty hmissing hfails⟩

end Settings

end Segmentation
