import Mathlib
import Segmentation.Filter.Reader
import Segmentation.Proofs.Json.Document

/-!
# Reading a stored filter

`readList_single` reads a list of one stored filter, whatever texts stand for its property, its
condition and its operand: the first two have to be strings, the operand any scalar that can be
written as a text.
-/

set_option autoImplicit false

namespace Segmentation.Filter

open Json (StartsString StartsScalar Separated placed)

/-- A list of one filter, given the texts of its fields. -/
def singleText (nameText conditionText operandText : String) : String :=
  "[\x7b\"propertyName\":" ++ nameText ++ ",\"condition\":" ++ conditionText ++
    ",\"propertyValue\":" ++ operandText ++ "\x7d]"

/-- Only scalars are operands. -/
theorem isScalar_of_operandText? {scalar : Json} {operand : String}
    (h : operandText? scalar = some operand) : scalar.IsScalar := by
  cases scalar with
  | array items => exact absurd h (by simp [operandText?])
  | object members => exact absurd h (by simp [operandText?])
  | null => trivial
  | bool b => trivial
  | number n => trivial
  | string s => trivial

variable {limit limit' : ℕ} {text rest : List Char} {s : String}

theorem stringValue_of_startsString (h : StartsString limit text s rest) :
    Json.stringValue limit text = .ok (s, rest) := by
  obtain ⟨tail, hskip, hread⟩ := h
  simp only [Json.stringValue, Json.stringWanted, hskip, if_true, hread]

/-! ### The names of the fields -/

def propertyNameText : List Char :=
  ['"', 'p', 'r', 'o', 'p', 'e', 'r', 't', 'y', 'N', 'a', 'm', 'e', '"']

def conditionText : List Char := ['"', 'c', 'o', 'n', 'd', 'i', 't', 'i', 'o', 'n', '"']

def propertyValueText : List Char :=
  ['"', 'p', 'r', 'o', 'p', 'e', 'r', 't', 'y', 'V', 'a', 'l', 'u', 'e', '"']

theorem startsString_propertyName (hlimit : 14 ≤ limit) :
    StartsString limit (propertyNameText ++ rest) "propertyName" rest := by
  have hword : StartsString 14 propertyNameText "propertyName" [] :=
    ⟨propertyNameText.tail, rfl, rfl⟩
  exact hword.append hlimit

theorem startsString_condition (hlimit : 14 ≤ limit) :
    StartsString limit (conditionText ++ rest) "condition" rest := by
  have hword : StartsString 14 conditionText "condition" [] := ⟨conditionText.tail, rfl, rfl⟩
  exact hword.append hlimit

theorem startsString_propertyValue (hlimit : 14 ≤ limit) :
    StartsString limit (propertyValueText ++ rest) "propertyValue" rest := by
  have hword : StartsString 14 propertyValueText "propertyValue" [] :=
    ⟨propertyValueText.tail, rfl, rfl⟩
  exact hword.append hlimit

/-! ### The fields -/

variable {depth : ℕ} {draft : Draft} {first : Bool} {front tail : List Char} {key : String}

/-- The property is read from the place that follows its name. -/
theorem readMembers_propertyName (hkey : key = "propertyName" ∨ key = "property_name")
    (hstep : Json.nextMember first front = .ok (.entry tail))
    (hname : Json.stringTail limit tail = .ok (key, ':' :: text))
    (hdraft : draft.propertyName = none) (h : StartsString limit text s rest) :
    (shape limit depth).readMembers limit first (limit' + 1) draft front =
      (shape limit depth).readMembers limit false limit' { draft with propertyName := some s }
        rest := by
  have hfield : (shape limit depth).field? key =
      some ((fields limit depth).get ⟨0, Nat.zero_lt_succ _⟩) := by
    rcases hkey with rfl | rfl <;> rfl
  refine Json.readMembers_field (shape limit depth) hstep hname hfield ?_ rfl ?_
  · show draft.propertyName.isSome = false
    rw [hdraft]
    rfl
  · refine Json.bind_eq_ok.mpr ⟨(s, rest), ?_, rfl⟩
    show placed (Json.stringValue limit text) = _
    rw [stringValue_of_startsString h, Json.placed_ok]

/-- The condition is read from the place that follows its name. -/
theorem readMembers_condition (hstep : Json.nextMember first front = .ok (.entry tail))
    (hname : Json.stringTail limit tail = .ok ("condition", ':' :: text))
    (hdraft : draft.condition = none) (h : StartsString limit text s rest) :
    (shape limit depth).readMembers limit first (limit' + 1) draft front =
      (shape limit depth).readMembers limit false limit'
        { draft with condition := some (Condition.parse s) } rest := by
  refine Json.readMembers_field (shape limit depth) hstep hname rfl ?_ rfl ?_
  · show draft.condition.isSome = false
    rw [hdraft]
    rfl
  · refine Json.bind_eq_ok.mpr ⟨(s, rest), ?_, rfl⟩
    show placed (Json.stringValue limit text) = _
    rw [stringValue_of_startsString h, Json.placed_ok]

/-- The operand is read from the place that follows its name, and kept as a text. -/
theorem readMembers_propertyValue {scalar : Json} {operand : String}
    (hkey : key = "propertyValue" ∨ key = "property_value")
    (hstep : Json.nextMember first front = .ok (.entry tail))
    (hname : Json.stringTail limit tail = .ok (key, ':' :: text))
    (hdraft : draft.operand = none) (h : StartsScalar limit text scalar rest)
    (hoperand : operandText? scalar = some operand) :
    (shape limit depth).readMembers limit first (limit' + 1) draft front =
      (shape limit depth).readMembers limit false limit' { draft with operand := some operand }
        rest := by
  have hfield : (shape limit depth).field? key =
      some ((fields limit depth).get ⟨2, Nat.lt_succ_self 2⟩) := by
    rcases hkey with rfl | rfl <;> rfl
  refine Json.readMembers_field (shape limit depth) hstep hname hfield ?_ rfl ?_
  · show draft.operand.isSome = false
    rw [hdraft]
    rfl
  · refine Json.bind_eq_ok.mpr ⟨(scalar, rest), ?_, ?_⟩
    · show placed (Json.value limit depth text) = _
      rw [h.value, Json.placed_ok]
    · simp only [hoperand]

/-! ### One filter -/

/-- A filter of three fields, given as the texts of their values. -/
def singleChars (name condition operand rest : List Char) : List Char :=
  propertyNameText ++ ':' :: (name ++ ',' :: (conditionText ++ ':' :: (condition ++ ',' ::
    (propertyValueText ++ ':' :: (operand ++ '\x7d' :: rest)))))

theorem toList_singleText (name condition operand : String) :
    (singleText name condition operand).toList =
      '[' :: '\x7b' :: singleChars name.toList condition.toList operand.toList [']'] := by
  have hopening : "[\x7b\"propertyName\":".toList =
      '[' :: '\x7b' :: (propertyNameText ++ [':']) := rfl
  have hsecond : ",\"condition\":".toList = ',' :: (conditionText ++ [':']) := rfl
  have hthird : ",\"propertyValue\":".toList = ',' :: (propertyValueText ++ [':']) := rfl
  have hclosing : "\x7d]".toList = ['\x7d', ']'] := rfl
  unfold singleText singleChars
  simp only [String.toList_append]
  rw [hopening, hsecond, hthird, hclosing]
  simp only [List.cons_append, List.append_assoc, List.nil_append]

theorem length_singleChars (name condition operand rest : List Char) :
    name.length + condition.length + operand.length + 14 ≤
      (singleChars name condition operand rest).length := by
  have hword : propertyNameText.length = 14 := rfl
  simp only [singleChars, List.length_append, List.length_cons]
  omega

/-- A filter is read field by field. -/
theorem readMembers_single {nameText textOfCondition operandText : List Char}
    {name condition operand : String} {scalar : Json}
    {afterName afterCondition afterOperand : List Char} (hlimit : 14 ≤ limit)
    (hname : StartsString (nameText.length + 1) nameText name afterName)
    (hafterName : Json.skipSpace afterName = [])
    (hnameLimit : nameText.length < limit)
    (hcondition : StartsString (textOfCondition.length + 1) textOfCondition condition
      afterCondition)
    (hafterCondition : Json.skipSpace afterCondition = [])
    (hconditionLimit : textOfCondition.length < limit)
    (hscalar : StartsScalar (operandText.length + 1) operandText scalar afterOperand)
    (hafterOperand : Json.skipSpace afterOperand = [])
    (hoperandLimit : operandText.length < limit)
    (hoperand : operandText? scalar = some operand) :
    (shape limit depth).readMembers limit true (limit' + 4) {}
        (singleChars nameText textOfCondition operandText rest) =
      .ok (⟨some name, some (Condition.parse condition), some operand⟩, rest) := by
  obtain ⟨nameTail, hnameStep, hnameKey⟩ :=
    Json.nextMember_first (startsString_propertyName hlimit)
  obtain ⟨conditionTail, hconditionStep, hconditionKey⟩ :=
    Json.nextMember_comma hafterName (startsString_condition hlimit)
  obtain ⟨operandTail, hoperandStep, hoperandKey⟩ :=
    Json.nextMember_comma hafterCondition (startsString_propertyValue hlimit)
  rw [singleChars,
    readMembers_propertyName (Or.inl rfl) hnameStep hnameKey rfl (hname.append hnameLimit),
    readMembers_condition hconditionStep hconditionKey rfl (hcondition.append hconditionLimit),
    readMembers_propertyValue (Or.inl rfl) hoperandStep hoperandKey rfl
      (hscalar.append hoperandLimit (Json.separated_cons (by decide) rest)) hoperand]
  exact Json.readMembers_close _ _ _ hafterOperand

/-- An object whose members are those of a filter is read as the filter. -/
theorem scan_of_readMembers {text rest : List Char} {draft : Draft} {filter : Filter}
    (hmembers : (shape limit depth).readMembers limit true limit {} text = .ok (draft, rest))
    (hfinish : draft.finish = .ok filter) :
    scan limit (depth + 1) ('\x7b' :: text) = .ok (filter, rest) := by
  have hobject : (shape limit depth).readObject limit text = .ok (filter, rest) := by
    have hstart : (shape limit depth).start = {} := rfl
    have hrecord : (shape limit depth).finish draft = .ok filter := hfinish
    simp only [Json.Shape.readObject, hstart, hmembers, Except.mapError, bind, Except.bind,
      hrecord]
  exact hobject

/-- A list of one object is a list of one filter if the object is read as a filter. -/
theorem items_single {text : List Char} {draft : Draft} {filter : Filter}
    (hmembers : (shape limit (Json.maxDepth - 2)).readMembers limit true limit {} text =
      .ok (draft, [']'])) (hfinish : draft.finish = .ok filter) (hlimit : 2 ≤ limit) :
    Json.listOf (scan limit (Json.maxDepth - 1)) limit ('[' :: '\x7b' :: text) =
      .ok ([filter], []) := by
  have hscan : scan limit (Json.maxDepth - 1) ('\x7b' :: text) = .ok (filter, [']']) :=
    scan_of_readMembers hmembers hfinish
  obtain ⟨more, rfl⟩ : ∃ more, limit = more + 2 := ⟨limit - 2, by omega⟩
  show Json.items _ true (more + 2) ('\x7b' :: text) = _
  have hend : Json.items (scan (more + 2) (Json.maxDepth - 1)) false (more + 1) [']'] =
      .ok ([], []) := rfl
  refine Json.bind_eq_ok.mpr ⟨.entry ('\x7b' :: text), rfl, ?_⟩
  exact Json.bind_eq_ok.mpr ⟨_, hscan, Json.bind_eq_ok.mpr ⟨_, hend, rfl⟩⟩

/-- A list of one filter is read with the texts of its fields. -/
theorem readList_single {nameText conditionText operandText name condition operand : String}
    {scalar : Json} (hname : Json.read nameText = .ok (.string name))
    (hcondition : Json.read conditionText = .ok (.string condition))
    (hscalar : Json.read operandText = .ok scalar)
    (hoperand : operandText? scalar = some operand) :
    readList (singleText nameText conditionText operandText) =
      .ok [⟨name, Condition.parse condition, operand⟩] := by
  obtain ⟨afterName, hname, hafterName⟩ := Json.startsString_of_read hname
  obtain ⟨afterCondition, hcondition, hafterCondition⟩ := Json.startsString_of_read hcondition
  obtain ⟨afterOperand, hscalar, hafterOperand⟩ :=
    Json.startsScalar_of_read hscalar (isScalar_of_operandText? hoperand)
  have hlength := length_singleChars nameText.toList conditionText.toList operandText.toList [']']
  rw [readList, Json.readWith_eq_ok_iff, toList_singleText]
  obtain ⟨limit, hlimit⟩ : ∃ limit, ('[' :: '\x7b' :: singleChars nameText.toList
      conditionText.toList operandText.toList [']']).length + 1 = limit + 4 :=
    ⟨_, (Nat.sub_add_cancel (by simp only [List.length_cons]; omega)).symm⟩
  rw [hlimit]
  simp only [List.length_cons] at hlimit
  have hmembers : (shape (limit + 4) (Json.maxDepth - 2)).readMembers (limit + 4) true (limit + 4)
      {} (singleChars nameText.toList conditionText.toList operandText.toList [']']) =
      .ok (⟨some name, some (Condition.parse condition), some operand⟩, [']']) :=
    readMembers_single (by omega) hname hafterName (by omega) hcondition hafterCondition
      (by omega) hscalar hafterOperand (by omega) hoperand
  exact ⟨[], items_single hmembers rfl (by omega), rfl⟩

end Segmentation.Filter
