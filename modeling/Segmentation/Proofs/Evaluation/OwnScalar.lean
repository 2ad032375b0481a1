import Mathlib
import Segmentation.Evaluation
import Segmentation.Proofs.Filter.Stored
import Segmentation.Proofs.Numeral.RoundTrip

/-!
# A stored scalar matches itself

An event and a stored filter may hold one and the same JSON scalar, the event as the value of a
property, the filter as its operand. The event keeps numbers as doubles, the filter keeps every
operand as a text, and the text is read again when the two are compared.
`satisfies_stored_scalar` shows that they always match, whatever the scalar and however it is
written: texts and truth values because nothing is lost, numbers because the text of an operand is
read back as the double that the event holds (`equals_read_operandText`).
-/

set_option autoImplicit false

namespace Segmentation

open Json (StartsString StartsScalar)

/-! ### Events of one property -/

namespace Event

/-- The text of an event with one property. -/
def singleText (nameText valueText : String) : String :=
  "\x7b" ++ nameText ++ ":" ++ valueText ++ "\x7d"

/-- An event with one property is read from the texts of its name and its value. -/
theorem read_singleText {nameText valueText name : String} {scalar : Json}
    (hname : Json.read nameText = .ok (.string name)) (hvalue : Json.read valueText = .ok scalar)
    (hscalar : scalar.IsScalar) :
    read (singleText nameText valueText) = .ok (ofList [(name, Value.ofJson scalar)]) := by
  obtain ⟨afterName, hstring, hafterName⟩ := Json.startsString_of_read hname
  obtain ⟨afterValue, hread, hafterValue⟩ := Json.startsScalar_of_read hvalue hscalar
  have htext : (singleText nameText valueText).toList = '\x7b' ::
      (nameText.toList ++ ':' :: (valueText.toList ++ ['\x7d'])) := by
    simp [singleText]
  have hlength : (singleText nameText valueText).toList.length =
      nameText.toList.length + valueText.toList.length + 3 := by
    rw [htext]
    simp only [List.length_cons, List.length_append, List.length_nil]
    omega
  obtain ⟨limit, hlimit⟩ : ∃ limit, (singleText nameText valueText).toList.length + 1 = limit + 2 :=
    ⟨_, (Nat.sub_add_cancel (by omega)).symm⟩
  have hmembers : Json.members (limit + 2) (Json.value (limit + 2) (Json.maxDepth - 1)) true
      (limit + 2) (nameText.toList ++ ':' :: (valueText.toList ++ ['\x7d'])) =
      .ok ([(name, scalar)], []) :=
    Json.members_single (hstring.append (by omega)) hafterName
      ((hread.append (by omega) (Json.separated_cons (by decide) [])).value _) hafterValue
  have hdocument : Json.read (singleText nameText valueText) = .ok (.object [(name, scalar)]) := by
    rw [Json.read, Json.readWith_eq_ok_iff, hlimit, htext]
    exact ⟨[], Json.valueWith_of_reading (.object rfl rfl hmembers), rfl⟩
  rw [read, hdocument]
  rfl

/-- The one property of such an event is found by its name. -/
theorem get?_single (name : String) (value : Value) :
    (ofList [(name, value)]).get? name = some value :=
  if_pos rfl

end Event

/-! ### Operands -/

/-- A property that is not null is found by its own name, also where names can be paths. -/
theorem Settings.resolve_of_get? (settings : Settings) {event : Event} {name : String}
    {value : Value} (h : event.get? name = some value) (hvalue : value.isNull = false) :
    settings.resolve event name = some value := by
  have hlookup : ∀ separator, event.lookup? separator name = some value := by
    intro separator
    rw [Event.lookup?, h]
  unfold Settings.resolve
  by_cases hpaths : settings.nestedPaths = true
  · simp [hpaths, hlookup, hvalue]
  · simp [hpaths, h, hvalue]

/-- The text of a number that is stored as an operand is read back as the double of the number. -/
theorem equals_read_operandText {n : Json.Number} {operand : String}
    (hfinite : ∃ negative rank, n.toBinary64 = .finite negative rank)
    (h : Filter.operandText? (.number n) = some operand) :
    n.toBinary64.equals (Numeral.read operand) = true := by
  obtain ⟨negative, rank, hfinite⟩ := hfinite
  have hnumber : n.toBinary64 ≠ .nan := by
    rw [hfinite]
    exact fun heq ↦ by cases heq
  cases n with
  | integer n =>
    rw [Filter.operandText?, Option.some.injEq] at h
    rw [← h]
    by_cases hsigned : Word.isSigned n = true
    · rw [if_pos hsigned, Numeral.read_toString]
      show (Binary64.ofInt n).equals (.ofInt n) = true
      have hself : Binary64.ofInt n = .finite negative rank := hfinite
      rw [Binary64.equals_self, hself]
      rfl
    · rw [if_neg hsigned]
      exact Numeral.equals_read_write hnumber
  | double x =>
    rw [Filter.operandText?, Option.some.injEq] at h
    rw [← h]
    exact Numeral.equals_read_write hnumber

/-- A scalar other than null equals its own operand. -/
theorem strictlyEquals_operandText {scalar : Json} {operand : String}
    (hfinite : ∀ n, scalar = .number n → ∃ negative rank, n.toBinary64 = .finite negative rank)
    (h : Filter.operandText? scalar = some operand) :
    (Value.ofJson scalar).strictlyEquals
      (Value.cast operand (Value.ofJson scalar).kind) = true := by
  cases scalar with
  | null => exact absurd h (by simp [Filter.operandText?])
  | array items => exact absurd h (by simp [Filter.operandText?])
  | object members => exact absurd h (by simp [Filter.operandText?])
  | bool b =>
    rw [Filter.operandText?, Option.some.injEq] at h
    rw [← h]
    cases b <;> decide
  | string s =>
    rw [Filter.operandText?, Option.some.injEq] at h
    rw [← h]
    show (s == s) = true
    exact beq_self_eq_true s
  | number n => exact equals_read_operandText (hfinite n rfl) h

/-- A scalar other than null has a text as an operand. -/
theorem exists_operandText {scalar : Json} (hscalar : scalar.IsScalar) (hnull : scalar ≠ .null) :
    ∃ operand, Filter.operandText? scalar = some operand := by
  cases scalar with
  | null => exact absurd rfl hnull
  | array items => exact hscalar.elim
  | object members => exact hscalar.elim
  | bool b => exact ⟨_, rfl⟩
  | string s => exact ⟨_, rfl⟩
  | number n => cases n <;> exact ⟨_, rfl⟩

/-- An event and a filter that hold the same scalar match, and with the opposite condition they do
not. -/
theorem Settings.satisfies_stored_scalar (settings : Settings)
    {nameText scalarText name : String} {scalar : Json}
    (hname : Json.read nameText = .ok (.string name)) (hscalar : Json.read scalarText = .ok scalar)
    (hkind : scalar.IsScalar) (hnull : scalar ≠ .null) :
    ∃ event equal different,
      Event.read (Event.singleText nameText scalarText) = .ok event ∧
      Filter.readList (Filter.singleText nameText "\"is\"" scalarText) = .ok [equal] ∧
      Filter.readList (Filter.singleText nameText "\"is not\"" scalarText) = .ok [different] ∧
      settings.satisfies event equal = true ∧ settings.satisfies event different = false := by
  obtain ⟨operand, hoperand⟩ := exists_operandText hkind hnull
  have hequals : (Value.ofJson scalar).strictlyEquals
      (Value.cast operand (Value.ofJson scalar).kind) = true := by
    refine strictlyEquals_operandText ?_ hoperand
    intro n hn
    obtain ⟨rest, hread, -⟩ := Json.startsScalar_of_read hscalar hkind
    rw [hn] at hread
    exact Json.exists_finite_of_valueWith hread
  have hproperty : settings.resolve (Event.ofList [(name, Value.ofJson scalar)]) name =
      some (Value.ofJson scalar) := by
    refine settings.resolve_of_get? (Event.get?_single name _) ?_
    cases scalar with
    | null => exact absurd rfl hnull
    | array items => exact hkind.elim
    | object members => exact hkind.elim
    | bool b => rfl
    | string s => rfl
    | number n => rfl
  have hequal : Json.read "\"is\"" = .ok (.string "is") := rfl
  have hdifferent : Json.read "\"is not\"" = .ok (.string "is not") := rfl
  refine ⟨_, _, _, Event.read_singleText hname hscalar hkind,
    Filter.readList_single hname hequal hscalar hoperand,
    Filter.readList_single hname hdifferent hscalar hoperand, ?_, ?_⟩
  · have hcondition : Condition.parse "is" = .is := by decide
    simp only [Settings.satisfies, hcondition, hproperty, Condition.holds, Option.any_some, hequals]
  · have hcondition : Condition.parse "is not" = .isNot := by decide
    simp only [Settings.satisfies, hcondition, hproperty, Condition.holds, Option.all_some, hequals,
      Bool.not_true]

/-- An integer past `2 ^ 63`, which the event rounds and the filter keeps as a double. -/
theorem Settings.satisfies_stored_scalar_large :
    ∃ event equal different,
      Event.read (Event.singleText "\"p\"" "9223372036854775809") = .ok event ∧
      Filter.readList (Filter.singleText "\"p\"" "\"is\"" "9223372036854775809") = .ok [equal] ∧
      Filter.readList (Filter.singleText "\"p\"" "\"is not\"" "9223372036854775809") =
        .ok [different] ∧
      Settings.default.satisfies event equal = true ∧
      Settings.default.satisfies event different = false :=
  Settings.default.satisfies_stored_scalar (show Json.read "\"p\"" = .ok (.string "p") from rfl)
    (show Json.read "9223372036854775809" = .ok (.number (.integer 9223372036854775809)) from rfl)
    trivial (by simp)

end Segmentation
