import Mathlib
import Segmentation.Evaluation

/-!
# The algebra of the conditions

Most conditions come in pairs, one the negation of the other. The pairs about equality and emptiness
are complements for every property, a missing one included (`holds_isNot`, `holds_isNotEmpty`). The
pairs about the text form are complements for a property that is there, whatever its kind, and
neither of the two holds of a missing one (`holds_textPairs`).

The conditions on texts are ordered: a text contains what it starts or ends with, and contains,
starts and ends with the parts of what it contains, starts and ends with. `conditions_obey_algebra`
collects these laws for the filters on one property of an event.
-/

set_option autoImplicit false

namespace Segmentation

/-! ### Parts of texts -/

namespace Text

variable {text front part back : String}

theorem contains_of_startsWith (h : startsWith text part = true) : contains text part = true :=
  contains_iff.mpr (startsWith_iff.mp h).isInfix

theorem contains_of_endsWith (h : endsWith text part = true) : contains text part = true :=
  contains_iff.mpr (endsWith_iff.mp h).isInfix

/-- A text contains every part of what it contains. -/
theorem contains_of_append (h : contains text (front ++ part ++ back) = true) :
    contains text part = true := by
  have hpart : part.toList <:+: (front ++ part ++ back).toList := by
    rw [String.toList_append, String.toList_append]
    exact List.infix_append front.toList part.toList back.toList
  exact contains_iff.mpr (hpart.trans (contains_iff.mp h))

theorem startsWith_of_append (h : startsWith text (front ++ part) = true) :
    startsWith text front = true := by
  have hfront : front.toList <+: (front ++ part).toList := by
    rw [String.toList_append]
    exact List.prefix_append front.toList part.toList
  exact startsWith_iff.mpr (hfront.trans (startsWith_iff.mp h))

theorem endsWith_of_append (h : endsWith text (part ++ back) = true) :
    endsWith text back = true := by
  have hback : back.toList <:+ (part ++ back).toList := by
    rw [String.toList_append]
    exact List.suffix_append part.toList back.toList
  exact endsWith_iff.mpr (hback.trans (endsWith_iff.mp h))

end Text

/-! ### Pairs of conditions -/

namespace Condition

/-- The conditions on the text form of a property, each with its negated form. -/
def textPairs : List (Condition × Condition) :=
  [(.contains, .doesNotContain), (.startsWith, .doesNotStartWith), (.endsWith, .doesNotEndWith)]

variable {property : Option Value} {operand : String}

/-- A missing property differs from every operand. -/
theorem holds_isNot : isNot.holds property operand = !is.holds property operand := by
  cases property <;> rfl

/-- A missing property is empty. The operands do not count. -/
theorem holds_isNotEmpty {other : String} :
    isNotEmpty.holds property other = !isEmpty.holds property operand := by
  cases property <;> rfl

/-- The negated form is the complement for a property that is there, and for no other. -/
theorem holds_textPairs {pair : Condition × Condition} (h : pair ∈ textPairs) :
    pair.2.holds property operand = (property.isSome && !pair.1.holds property operand) := by
  fin_cases h <;> cases property <;> rfl

/-- The conditions on the text form do not hold of a missing property. -/
theorem holds_none_of_mem_textPairs {pair : Condition × Condition} (h : pair ∈ textPairs) :
    pair.1.holds none operand = false := by
  fin_cases h <;> rfl

/-- The conditions on the text form of a property, each with the test that it makes on it. -/
def textTests : List (Condition × (String → String → Bool)) :=
  [(.contains, Text.contains), (.startsWith, Text.startsWith), (.endsWith, Text.endsWith)]

theorem holds_textTest {row : Condition × (String → String → Bool)} (h : row ∈ textTests) :
    row.1.holds property operand = property.any fun value ↦ row.2 value.text operand := by
  fin_cases h <;> cases property <;> rfl

/-- What follows from a test of the text form follows from its condition, whatever the property. -/
theorem holds_of_textTest {first second : Condition × (String → String → Bool)} {other : String}
    (hfirst : first ∈ textTests) (hsecond : second ∈ textTests)
    (himp : ∀ text, first.2 text operand = true → second.2 text other = true)
    (h : first.1.holds property operand = true) : second.1.holds property other = true := by
  rw [holds_textTest hfirst, Option.any_eq_true] at h
  rw [holds_textTest hsecond, Option.any_eq_true]
  obtain ⟨value, hvalue, htest⟩ := h
  exact ⟨value, hvalue, himp value.text htest⟩

end Condition

namespace Settings

variable (settings : Settings)

/-- The filters on one property obey the algebra of their conditions. Of equality and its negation
exactly one is satisfied, and so of emptiness and its negation, whether the property is there or
not. Of each pair of conditions on the text form exactly one is satisfied if the name resolves to a
value, and neither if it resolves to none. What a property starts or ends with it contains; and it
contains, starts and ends with every part, first part and last part of what it contains, starts and
ends with. -/
theorem conditions_obey_algebra (event : Event) (name : String) :
    let test := fun condition operand ↦ settings.satisfies event ⟨name, condition, operand⟩
    (∀ operand, test .isNot operand = !test .is operand) ∧
    (∀ operand other, test .isNotEmpty other = !test .isEmpty operand) ∧
    (∀ pair ∈ Condition.textPairs, ∀ operand,
      ((settings.resolve event name).isSome = true →
        test pair.2 operand = !test pair.1 operand) ∧
      (settings.resolve event name = none →
        test pair.1 operand = false ∧ test pair.2 operand = false)) ∧
    (∀ operand, test .startsWith operand = true ∨ test .endsWith operand = true →
      test .contains operand = true) ∧
    ∀ front part back,
      (test .contains (front ++ part ++ back) = true → test .contains part = true) ∧
      (test .startsWith (front ++ part) = true → test .startsWith front = true) ∧
      (test .endsWith (part ++ back) = true → test .endsWith back = true) := by
  intro test
  have hcontains : (Condition.contains, Text.contains) ∈ Condition.textTests := by
    simp [Condition.textTests]
  have hstarts : (Condition.startsWith, Text.startsWith) ∈ Condition.textTests := by
    simp [Condition.textTests]
  have hends : (Condition.endsWith, Text.endsWith) ∈ Condition.textTests := by
    simp [Condition.textTests]
  refine ⟨fun operand ↦ Condition.holds_isNot, fun operand other ↦ Condition.holds_isNotEmpty,
    fun pair hpair operand ↦ ⟨fun hsome ↦ ?_, fun hnone ↦ ?_⟩, ?_, fun front part back ↦
      ⟨Condition.holds_of_textTest hcontains hcontains fun _ ↦ Text.contains_of_append,
        Condition.holds_of_textTest hstarts hstarts fun _ ↦ Text.startsWith_of_append,
        Condition.holds_of_textTest hends hends fun _ ↦ Text.endsWith_of_append⟩⟩
  · simp only [test, satisfies]
    rw [Condition.holds_textPairs hpair, hsome, Bool.true_and]
  · simp only [test, satisfies, hnone]
    exact ⟨Condition.holds_none_of_mem_textPairs hpair, Condition.holds_textPairs hpair⟩
  · rintro operand (hstart | hend)
    · exact Condition.holds_of_textTest hstarts hcontains
        (fun _ ↦ Text.contains_of_startsWith) hstart
    · exact Condition.holds_of_textTest hends hcontains (fun _ ↦ Text.contains_of_endsWith) hend

/-- A list whose text form has an empty place, under a path, and a name that leads nowhere. -/
theorem conditions_obey_algebra_list :
    let event := Event.ofList [("user", .object
      [("tags", .array [.string "été", .null, .array [.number .one, .boolean true]])])]
    let test := fun name condition operand ↦
      (default : Settings).satisfies event ⟨name, condition, operand⟩
    test "user.tags" .endsWith ",1,true" = true ∧ test "user.tags" .contains ",1,true" = true ∧
      test "user.tags" .endsWith "true" = true ∧ test "user.tags" .doesNotContain "," = false ∧
      test "user.tag" .contains "" = false ∧ test "user.tag" .doesNotContain "" = false := by
  intro event test
  have hend : test "user.tags" .endsWith (",1," ++ "true") = true := by decide +kernel
  have hsome : ((default : Settings).resolve event "user.tags").isSome = true := by decide +kernel
  have hnone : (default : Settings).resolve event "user.tag" = none := by rfl
  have hpair : (Condition.contains, Condition.doesNotContain) ∈ Condition.textPairs :=
    List.mem_cons_self
  obtain ⟨-, -, hpairs, hcontains, hparts⟩ :=
    (default : Settings).conditions_obey_algebra event "user.tags"
  obtain ⟨-, -, hmissing, -, -⟩ := (default : Settings).conditions_obey_algebra event "user.tag"
  have hwhole := hcontains _ (Or.inr hend)
  have hcomma := ((hpairs _ hpair ",").1 hsome).trans
    (congrArg (!·) ((hparts "" "," "1,true").1 hwhole))
  obtain ⟨hnot, hnotEither⟩ := (hmissing _ hpair "").2 hnone
  exact ⟨hend, hwhole, (hparts "" ",1," "true").2.2 hend, hcomma, hnot, hnotEither⟩

end Settings

end Segmentation
