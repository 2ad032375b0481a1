import Mathlib
import Segmentation.Proofs.Json.Verbatim
import Segmentation.Proofs.Json.Written
import Segmentation.Proofs.Numeral.RoundTrip

/-!
# Documents read back from their indented texts

The indented text of a document has a line break before each entry of a container and before its
closing bracket, and a blank behind each colon. All of this is passed over, so the text of a list
joins the texts of lines that are each read as an item (`writeIndented_array`), and that of an
object the texts of lines that are each read as a member (`writeIndented_object`). By induction on
the document, `readsText_writeIndented` reads a document back at any depth of indentation, and
`read_indented` the whole text. Only the numbers need care: `IsIntegral` describes the documents
whose numbers are integers that fit a machine word, and these come back exactly.
-/

set_option autoImplicit false

namespace Segmentation.Json

/-! ### Lines -/

theorem skipSpace_newLine (depth : ℕ) : skipSpace (newLine depth) = [] := by
  refine skipSpace_eq_nil_iff.mpr fun c hc ↦ ?_
  rcases List.mem_cons.mp hc with rfl | hc
  · rfl
  · rw [List.eq_of_mem_replicate hc]
    rfl

/-- The line break before a closing bracket, which an empty container does without. -/
def lastLine {ι : Type} (depth : ℕ) (entries : List ι) : List Char :=
  if entries.isEmpty then [] else newLine depth

theorem skipSpace_lastLine {ι : Type} (depth : ℕ) (entries : List ι) :
    skipSpace (lastLine depth entries) = [] := by
  unfold lastLine
  split
  · rfl
  · exact skipSpace_newLine depth

/-- An item on its line. -/
def itemLine (depth : ℕ) (item : Json) : List Char := newLine depth ++ writeIndented depth item

/-- A member on its line. -/
def memberLine (depth : ℕ) (member : String × Json) : List Char :=
  newLine depth ++ (writeString member.1 ++ ':' :: ' ' :: writeIndented depth member.2)

theorem writeIndentedItems_eq_flatMap (depth : ℕ) (items : List Json) :
    writeIndentedItems depth items = (items.map (itemLine depth)).flatMap (',' :: ·) := by
  induction items with
  | nil => rfl
  | cons item rest ih => simp [writeIndentedItems, itemLine, ih]

theorem writeIndentedMembers_eq_flatMap (depth : ℕ) (members : List (String × Json)) :
    writeIndentedMembers depth members = (members.map (memberLine depth)).flatMap (',' :: ·) := by
  induction members with
  | nil => rfl
  | cons member rest ih => simp [writeIndentedMembers, memberLine, ih]

/-- The text of a list joins the lines of its items. -/
theorem writeIndented_array (depth : ℕ) (items : List Json) :
    writeIndented depth (.array items) =
      '[' :: (List.intercalate [','] (items.map (itemLine (depth + 1))) ++
        (lastLine depth items ++ [']'])) := by
  cases items with
  | nil => rfl
  | cons item rest =>
    rw [writeIndented, List.map_cons, intercalate_cons, writeIndentedItems_eq_flatMap]
    simp [itemLine, lastLine]

/-- The text of an object joins the lines of its members. -/
theorem writeIndented_object (depth : ℕ) (members : List (String × Json)) :
    writeIndented depth (.object members) =
      '\x7b' :: (List.intercalate [','] (members.map (memberLine (depth + 1))) ++
        (lastLine depth members ++ ['\x7d'])) := by
  cases members with
  | nil => rfl
  | cons member rest =>
    rw [writeIndented, List.map_cons, intercalate_cons, writeIndentedMembers_eq_flatMap]
    simp [memberLine, lastLine]

theorem startsValue_writeIndented (depth : ℕ) (document : Json) :
    StartsValue (writeIndented depth document) := by
  cases document with
  | array items =>
    rw [writeIndented_array]
    exact ⟨'[', _, rfl, by decide, by decide⟩
  | object members =>
    rw [writeIndented_object]
    exact ⟨'\x7b', _, rfl, by decide, by decide⟩
  | null => exact startsValue_write .null
  | bool b => exact startsValue_write (.bool b)
  | number n => exact startsValue_write (.number n)
  | string s => exact startsValue_write (.string s)

/-! ### Integers -/

/-- The integer fits a machine word: one with a sign if it is negative, and one without if it is
not. -/
def FitsWord (n : ℤ) : Prop := -Word.signedLimit ≤ n ∧ n ≤ Word.unsignedMax

/-- An integer that fits a machine word is read back from its text. -/
theorem readsBack_integer {limit depth : ℕ} {n : ℤ} (h : FitsWord n) :
    ReadsBack (value limit depth) (.number (.integer n)) (.number (.integer n)) := by
  obtain ⟨literal, htext, hdecimal, hfraction, hexponent⟩ := Numeral.exists_literal_toString n
  have hcoefficient : literal.decimal.coefficient = n.natAbs := by rw [hdecimal]
  have hnegative : literal.negative = decide (n < 0) := congrArg Decimal.negative hdecimal
  have hlower := h.1
  have hupper := h.2
  have hfits : literal.decimal.coefficient ≤ Word.unsignedMax := by
    rw [hcoefficient]
    simp only [Word.signedLimit, Word.unsignedMax] at hlower hupper ⊢
    omega
  have hnumber := Literal.number?_of_whole hfits hfraction hexponent
  rw [hcoefficient, hnegative] at hnumber
  refine readsBack_number (htext.trans (writeInteger_eq_toString n).symm) (hnumber.trans ?_)
  by_cases hsign : n < 0
  · have hsigned : Word.isSigned n = true := by
      refine Word.isSigned_iff.mpr ⟨hlower, hsign.trans ?_⟩
      decide
    have habs : -(n.natAbs : ℤ) = n := by omega
    have hne : n.natAbs ≠ 0 := by omega
    rw [decide_eq_true hsign, wholeNumber, if_neg (by decide), habs, if_pos ⟨hne, hsigned⟩]
  · have habs : (n.natAbs : ℤ) = n := by omega
    rw [decide_eq_false hsign, wholeNumber, if_pos (by decide), habs]

/-! ### Reading back -/

/-- The document opens no more than some brackets at once, and its numbers are integers that fit a
machine word. -/
inductive IsIntegral : ℕ → Json → Prop
  | null (depth : ℕ) : IsIntegral depth .null
  | bool (depth : ℕ) (b : Bool) : IsIntegral depth (.bool b)
  | integer (depth : ℕ) {n : ℤ} (h : FitsWord n) : IsIntegral depth (.number (.integer n))
  | string (depth : ℕ) (s : String) : IsIntegral depth (.string s)
  | array {depth : ℕ} {items : List Json} (h : ∀ item ∈ items, IsIntegral depth item) :
    IsIntegral (depth + 1) (.array items)
  | object {depth : ℕ} {members : List (String × Json)}
    (h : ∀ member ∈ members, IsIntegral depth member.2) : IsIntegral (depth + 1) (.object members)

section Containers

variable {limit depth level : ℕ}

/-- A list is read back from its indented text if its items are. -/
theorem readsText_array {items : List Json}
    (hlimit : (writeIndented level (.array items)).length < limit)
    (h : ∀ item ∈ items, (writeIndented (level + 1) item).length < limit →
      ReadsText (value limit depth) (writeIndented (level + 1) item) item.settled) :
    ReadsText (value limit (depth + 1)) (writeIndented level (.array items))
      (settled (.array items)) := by
  intro rest hrest
  obtain ⟨hcount, hlength⟩ := length_le_intercalate (items.map (itemLine (level + 1)))
  rw [List.length_map] at hcount
  rw [writeIndented_array] at hlimit ⊢
  simp only [List.length_cons, List.length_append] at hlimit
  have hitem : ∀ item ∈ items,
      IsItem (value limit depth) (itemLine (level + 1) item) item.settled := by
    intro item hitem
    have hline := hlength _ (List.mem_map_of_mem hitem)
    rw [itemLine, List.length_append] at hline
    refine ⟨newLine (level + 1), writeIndented (level + 1) item, [], ?_, skipSpace_newLine _, rfl,
      startsValue_writeIndented _ item, h item hitem (by omega)⟩
    rw [itemLine, List.append_nil]
  have hitems := items_intercalate (itemLine (level + 1)) settled items hitem
    (show items.length < limit by omega) (skipSpace_lastLine level items) rest
  have htext : ('[' :: (List.intercalate [','] (items.map (itemLine (level + 1))) ++
      (lastLine level items ++ [']']))) ++ rest =
        '[' :: (List.intercalate [','] (items.map (itemLine (level + 1))) ++
          (lastLine level items ++ ']' :: rest)) := by simp
  rw [htext, settled, settledItems_eq_map]
  exact valueWith_of_reading (.array rfl rfl hitems)

/-- An object is read back from its indented text if its values are. -/
theorem readsText_object {members : List (String × Json)}
    (hlimit : (writeIndented level (.object members)).length < limit)
    (h : ∀ member ∈ members, (writeIndented (level + 1) member.2).length < limit →
      ReadsText (value limit depth) (writeIndented (level + 1) member.2) member.2.settled) :
    ReadsText (value limit (depth + 1)) (writeIndented level (.object members))
      (settled (.object members)) := by
  intro rest hrest
  obtain ⟨hcount, hlength⟩ := length_le_intercalate (members.map (memberLine (level + 1)))
  rw [List.length_map] at hcount
  rw [writeIndented_object] at hlimit ⊢
  simp only [List.length_cons, List.length_append] at hlimit
  have hmember : ∀ member ∈ members, IsMember limit (value limit depth)
      (memberLine (level + 1) member) member.1 member.2.settled := by
    intro member hmember
    have hline := hlength _ (List.mem_map_of_mem hmember)
    have hname := length_le_writeString member.1
    simp only [memberLine, List.length_append, List.length_cons] at hline
    refine ⟨' ' :: writeIndented (level + 1) member.2, fun after ↦ ?_, fun after hafter ↦ ?_⟩
    · have hstring := startsString_writeString (show member.1.toList.length < limit by omega)
        (':' :: (' ' :: writeIndented (level + 1) member.2 ++ after))
      obtain ⟨tail, hskip, htail⟩ := hstring
      refine ⟨tail, ?_, htail⟩
      rw [memberLine, List.append_assoc, skipSpace_append_of_nil (skipSpace_newLine _),
        List.append_assoc, List.cons_append]
      exact hskip
    · -- The blank behind the colon is passed like any other before a value.
      have hvalue := h member hmember (by omega) after hafter
      have hspace : skipSpace [' '] = [] := rfl
      rw [List.cons_append, ← List.singleton_append, ← value_skipSpace,
        skipSpace_append_of_nil hspace, value_skipSpace]
      exact hvalue
  have hmembers := members_intercalate (memberLine (level + 1)) Prod.fst
    (fun member ↦ member.2.settled) members hmember (show members.length < limit by omega)
    (skipSpace_lastLine level members) rest
  have htext : ('\x7b' :: (List.intercalate [','] (members.map (memberLine (level + 1))) ++
      (lastLine level members ++ ['\x7d']))) ++ rest =
        '\x7b' :: (List.intercalate [','] (members.map (memberLine (level + 1))) ++
          (lastLine level members ++ '\x7d' :: rest)) := by simp
  rw [htext, settled, settledMembers_eq_map]
  exact valueWith_of_reading (.object rfl rfl hmembers)

end Containers

/-- A document of words is read back from its indented text, wherever that starts. -/
theorem readsText_writeIndented {depth : ℕ} {document : Json} (h : IsIntegral depth document)
    {limit level : ℕ} (hlimit : (writeIndented level document).length < limit) :
    ReadsText (value limit depth) (writeIndented level document) document.settled := by
  induction h generalizing level with
  | null depth => exact readsBack_null
  | bool depth b => exact readsBack_bool b
  | integer depth h => exact readsBack_integer h
  | string depth s =>
    have hlength := length_le_writeString s
    have htext : writeIndented level (.string s) = writeString s := rfl
    rw [htext] at hlimit
    exact readsBack_string (by omega)
  | array h ih => exact readsText_array hlimit fun item hitem ↦ ih item hitem
  | object h ih => exact readsText_object hlimit fun member hmember ↦ ih member hmember

/-- A document of words is read back from its indented text, the last member of each name being
the one that counts. -/
theorem read_indented {document : Json} (h : IsIntegral maxDepth document) :
    read document.indented = .ok document.settled := by
  have htext : document.indented.toList = writeIndented 0 document := String.toList_ofList
  have hread := readsText_writeIndented h (Nat.lt_succ_self (writeIndented 0 document).length) []
    separated_nil
  rw [List.append_nil] at hread
  rw [read, readWith_eq_ok_iff, htext]
  exact ⟨[], hread, rfl⟩

end Segmentation.Json
