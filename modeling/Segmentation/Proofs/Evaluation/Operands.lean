import Mathlib
import Segmentation.Evaluation
import Segmentation.Proofs.Value.Operand

/-!
# Properties and their operands

What a filter says about a property that is found depends on the property and the operand alone
(`satisfies_of_resolve`). Two families of statements follow from the comparison of values with
operands.

A filter made from the text form of a property selects that property: the conditions on texts hold
because a text starts, ends and occurs in itself, the equality conditions because a scalar is read
back from its text form, and neither ordering condition holds (`satisfies_printed_form`).

The equality condition and the two ordering conditions exclude one another for every operand, except
that a radix literal may stand for an integer and for a double beside it; and a threshold can be
moved away from the property (`comparisons_coherent`).
-/

set_option autoImplicit false

namespace Segmentation

namespace Text

theorem contains_self (text : String) : contains text text = true :=
  contains_iff.mpr (List.infix_refl _)

theorem startsWith_self (text : String) : startsWith text text = true :=
  startsWith_iff.mpr (List.prefix_refl _)

theorem endsWith_self (text : String) : endsWith text text = true :=
  endsWith_iff.mpr (List.suffix_refl _)

end Text

/-! ### One condition -/

namespace Condition

variable {property : Option Value}

/-- A property that equals an operand lies neither above nor below it, and none lies on both
sides. -/
theorem holds_at_most_one {operand : String} (hradix : ¬Numeral.IsRadixLiteral operand) :
    (Condition.is.holds property operand).toNat + (isMoreThan.holds property operand).toNat +
      (isLessThan.holds property operand).toNat ≤ 1 := by
  cases property with
  | none => simp [holds]
  | some value =>
    simp only [holds, Option.any_some]
    cases hequal : value.strictlyEquals (Value.cast operand value.kind) with
    | true =>
      obtain ⟨hbelow, habove⟩ := Value.unordered_of_strictlyEquals hradix hequal
      rw [hbelow, habove]
      decide
    | false =>
      cases hbelow : value.toNumber.less (Numeral.read operand) with
      | true =>
        rw [Binary64.less_asymm hbelow]
        decide
      | false => cases (Numeral.read operand).less value.toNumber <;> decide

section Thresholds

variable {low high : String}

/-- What is above a threshold is above every lower one. -/
theorem holds_isMoreThan_of_atMost (hle : (Numeral.read low).AtMost (Numeral.read high))
    (h : isMoreThan.holds property high = true) : isMoreThan.holds property low = true := by
  cases property with
  | none => exact absurd h Bool.false_ne_true
  | some value => exact Binary64.less_of_atMost_left hle h

/-- What is below a threshold is below every higher one. -/
theorem holds_isLessThan_of_atMost (hle : (Numeral.read low).AtMost (Numeral.read high))
    (h : isLessThan.holds property low = true) : isLessThan.holds property high = true := by
  cases property with
  | none => exact absurd h Bool.false_ne_true
  | some value => exact Binary64.less_of_atMost_right h hle

end Thresholds

end Condition

namespace Settings

variable (settings : Settings) {event : Event} {name : String} {value : Value}

/-- A property that is found is all that a filter looks at. -/
theorem satisfies_of_resolve (h : settings.resolve event name = some value)
    (condition : Condition) (operand : String) :
    settings.satisfies event ⟨name, condition, operand⟩ =
      condition.holds (some value) operand := by
  rw [satisfies, h]

/-! ### The text form of a property -/

/-- A filter whose operand is the text form of a property selects the property. The conditions on
texts hold and their negations do not, the property is neither above nor below its own text form,
and it equals it, unless it is NaN, a list or an object, which equal no operand at all. -/
theorem satisfies_printed_form (h : settings.resolve event name = some value) :
    let test := fun condition operand ↦ settings.satisfies event ⟨name, condition, operand⟩
    test .contains value.text = true ∧ test .doesNotContain value.text = false ∧
      test .startsWith value.text = true ∧ test .doesNotStartWith value.text = false ∧
      test .endsWith value.text = true ∧ test .doesNotEndWith value.text = false ∧
      test .isMoreThan value.text = false ∧ test .isLessThan value.text = false ∧
      (value.isComparable = true →
        test .is value.text = true ∧ test .isNot value.text = false) ∧
      (value.isComparable = false →
        ∀ operand, test .is operand = false ∧ test .isNot operand = true) := by
  obtain ⟨hbelow, habove⟩ := value.unordered_text
  simp only [settings.satisfies_of_resolve h, Condition.holds, Option.any_some, Option.all_some,
    Text.contains_self, Text.startsWith_self, Text.endsWith_self, hbelow, habove, Bool.not_true,
    true_and]
  constructor
  · intro hcomparable
    rw [Value.strictlyEquals_cast_text hcomparable]
    exact ⟨rfl, rfl⟩
  · intro hcomparable operand
    rw [Value.strictlyEquals_cast_of_not_isComparable hcomparable]
    exact ⟨rfl, rfl⟩

/-- A wide integer below a path, one above `2 ^ 53` and so no double. -/
theorem satisfies_printed_form_wide :
    let id : WideInteger := ⟨9007199254740993, by decide, by decide⟩
    let event := Event.ofList [("user", .object [("id", .bigint id)])]
    (default : Settings).resolve event "user.id" = some (.bigint id) ∧
      (default : Settings).satisfies event ⟨"user.id", .is, "9007199254740993"⟩ = true ∧
      (default : Settings).satisfies event ⟨"user.id", .isMoreThan, "9007199254740993"⟩ = false ∧
      (default : Settings).satisfies event ⟨"user.id", .endsWith, "9007199254740993"⟩ = true := by
  intro id event
  have hresolve : (default : Settings).resolve event "user.id" = some (.bigint id) := by rfl
  obtain ⟨-, -, -, -, hends, -, hmore, -, hequal, -⟩ :=
    (default : Settings).satisfies_printed_form hresolve
  exact ⟨hresolve, (hequal rfl).1, hmore, hends⟩

/-! ### Equality and order -/

/-- The comparisons of a property with operands are coherent. For each operand that is no radix
literal at most one of equality and the two orders holds, whatever the kind of the property. And a
property above a threshold is above every lower one, a property below a threshold below every
higher one. -/
theorem comparisons_coherent (event : Event) (name : String) :
    let test := fun condition operand ↦ settings.satisfies event ⟨name, condition, operand⟩
    (∀ operand, ¬Numeral.IsRadixLiteral operand →
      (test .is operand).toNat + (test .isMoreThan operand).toNat +
        (test .isLessThan operand).toNat ≤ 1) ∧
    ∀ low high, (Numeral.read low).AtMost (Numeral.read high) →
      (test .isMoreThan high = true → test .isMoreThan low = true) ∧
      (test .isLessThan low = true → test .isLessThan high = true) :=
  ⟨fun _ hradix ↦ Condition.holds_at_most_one hradix,
    fun _ _ hle ↦ ⟨Condition.holds_isMoreThan_of_atMost hle,
      Condition.holds_isLessThan_of_atMost hle⟩⟩

/-- A wide integer that no double equals, against itself and between two thresholds. -/
theorem comparisons_coherent_wide :
    let id : WideInteger := ⟨9007199254740993, by decide, by decide⟩
    let event := Event.ofList [("id", .bigint id)]
    let test := fun condition operand ↦
      (default : Settings).satisfies event ⟨"id", condition, operand⟩
    ¬Numeral.IsRadixLiteral " +09007199254740993" ∧
      (test .is " +09007199254740993").toNat + (test .isMoreThan " +09007199254740993").toNat +
        (test .isLessThan " +09007199254740993").toNat ≤ 1 ∧
      (Numeral.read "-1e3").AtMost (Numeral.read ".5e15") ∧
      (test .isMoreThan ".5e15" = true → test .isMoreThan "-1e3" = true) := by
  intro id event test
  have hradix : ¬Numeral.IsRadixLiteral " +09007199254740993" := by
    rintro ⟨radix, digits, n, hcut, -⟩
    have hnone : Numeral.cutRadix (Text.trim " +09007199254740993".toList) = none := by decide
    exact absurd (hnone.symm.trans hcut) (by simp)
  have hle : (Numeral.read "-1e3").AtMost (Numeral.read ".5e15") := Or.inl (by decide +kernel)
  obtain ⟨hone, hthreshold⟩ := (default : Settings).comparisons_coherent event "id"
  exact ⟨hradix, hone _ hradix, hle, (hthreshold _ _ hle).1⟩

end Settings

end Segmentation
