import Mathlib
import Segmentation.Proofs.Json.Quoted
import Segmentation.Proofs.Json.Reread

/-!
# Containers read back from their texts

A list is read back from its text if its items are, and an object if its values are, whatever the
items and the values are read as. The text of a list joins the texts of its items, and that of an
object the texts of its members, so `items_itemsText` and `members_membersText` are the cases of
`items_intercalate` and `members_intercalate` without blanks. Scalars are read back whatever
brackets may open.
-/

set_option autoImplicit false

namespace Segmentation.Json

open Binary64

/-! ### The first character -/

theorem startsValue_numberStart {c : Char} {tail : List Char}
    (hc : c = '-' ∨ Text.isDigit c = true) : StartsValue (c :: tail) := by
  refine ⟨c, tail, rfl, isSpace_numberStart hc, ?_⟩
  rcases hc with rfl | hc
  · decide
  · exact ne_of_isDigit hc (by decide)

theorem startsValue_writeInteger (n : ℤ) : StartsValue (writeInteger n) := by
  unfold writeInteger
  split
  · exact startsValue_numberStart (Or.inl rfl)
  · obtain ⟨c, tail, hdigits⟩ :=
      List.exists_cons_of_ne_nil (Nat.toDigits_ne_nil (n := n.natAbs) (b := 10))
    have hword := IsDigits.toDigits n.natAbs
    rw [hdigits] at hword ⊢
    exact startsValue_numberStart (Or.inr hword.head)

theorem startsValue_writeDouble (x : Binary64) : StartsValue (writeDouble x) := by
  have hnull : StartsValue "null".toList := ⟨'n', ['u', 'l', 'l'], rfl, by decide, by decide⟩
  cases x with
  | nan => exact hnull
  | infinite negative => exact hnull
  | finite negative rank =>
    obtain ⟨literal, h⟩ := exists_rereads negative rank
    obtain ⟨c, tail, htext, hc⟩ := literal.exists_text_cons
    rw [← h.text_eq, htext]
    exact startsValue_numberStart hc

/-- The text of a document starts with the document. -/
theorem startsValue_write (document : Json) : StartsValue (write document) := by
  cases document with
  | null => exact ⟨'n', ['u', 'l', 'l'], rfl, by decide, by decide⟩
  | bool b =>
    cases b with
    | true => exact ⟨'t', ['r', 'u', 'e'], rfl, by decide, by decide⟩
    | false => exact ⟨'f', ['a', 'l', 's', 'e'], rfl, by decide, by decide⟩
  | number n =>
    cases n with
    | integer n => exact startsValue_writeInteger n
    | double x => exact startsValue_writeDouble x
  | string s => exact ⟨'"', _, rfl, by decide, by decide⟩
  | array items => cases items <;> exact ⟨'[', _, rfl, by decide, by decide⟩
  | object members => cases members <;> exact ⟨'\x7b', _, rfl, by decide, by decide⟩

/-! ### Lists -/

section Containers

variable {ι α : Type} (document : ι → Json) (result : ι → α) {read : Scan α}

/-- The entry is read back from its text, as something else possibly. -/
def ReadsBack (read : Scan α) (document : Json) (result : α) : Prop :=
  ReadsText read (write document) result

/-- Items in their brackets, without the first bracket. -/
def itemsText : List Json → List Char
  | [] => [']']
  | item :: rest => write item ++ writeItems rest ++ [']']

theorem write_array (items : List Json) : write (.array items) = '[' :: itemsText items := by
  cases items <;> rfl

theorem writeItems_eq_flatMap (items : List Json) :
    writeItems items = (items.map write).flatMap (',' :: ·) := by
  induction items with
  | nil => rfl
  | cons item rest ih => simp [writeItems, ih]

/-- The text of a list joins the texts of its items. -/
theorem itemsText_eq_intercalate (items : List Json) :
    itemsText items = List.intercalate [','] (items.map write) ++ [']'] := by
  cases items with
  | nil => rfl
  | cons item rest => rw [itemsText, List.map_cons, intercalate_cons, writeItems_eq_flatMap]

/-- There are fewer items than characters, and none is longer than the list. -/
theorem length_le_itemsText (items : List Json) : items.length ≤ (itemsText items).length ∧
    ∀ item ∈ items, (write item).length ≤ (itemsText items).length := by
  obtain ⟨hcount, hlength⟩ := length_le_intercalate (items.map write)
  rw [List.length_map] at hcount
  rw [itemsText_eq_intercalate, List.length_append, List.length_singleton]
  exact ⟨hcount, fun item hitem ↦ (hlength _ (List.mem_map_of_mem hitem)).trans (Nat.le_succ _)⟩

/-- A list is read back from its text. -/
theorem items_itemsText (entries : List ι)
    (hread : ∀ entry ∈ entries, ReadsBack read (document entry) (result entry)) {limit : ℕ}
    (hlimit : entries.length < limit) (rest : List Char) :
    items read true limit (itemsText (entries.map document) ++ rest) =
      .ok (entries.map result, rest) := by
  have hitem : ∀ entry ∈ entries, IsItem read (write (document entry)) (result entry) := by
    intro entry hentry
    exact ⟨[], _, [], (List.append_nil _).symm, rfl, rfl, startsValue_write (document entry),
      hread entry hentry⟩
  have hblank : skipSpace [] = [] := rfl
  have hitems := items_intercalate (fun entry ↦ write (document entry)) result entries hitem
    hlimit hblank rest
  rw [itemsText_eq_intercalate, List.map_map, List.append_assoc]
  exact hitems

/-! ### Objects -/

variable (name : ι → String)

/-- Members in their brackets, without the first bracket. -/
def membersText : List (String × Json) → List Char
  | [] => ['\x7d']
  | (name, value) :: rest =>
    writeString name ++ ':' :: write value ++ writeMembers rest ++ ['\x7d']

theorem write_object (members : List (String × Json)) :
    write (.object members) = '\x7b' :: membersText members := by
  cases members <;> rfl

/-- A member as it is written. -/
def memberText (member : String × Json) : List Char :=
  writeString member.1 ++ ':' :: write member.2

theorem writeMembers_eq_flatMap (members : List (String × Json)) :
    writeMembers members = (members.map memberText).flatMap (',' :: ·) := by
  induction members with
  | nil => rfl
  | cons member rest ih => simp [writeMembers, memberText, ih]

/-- The text of an object joins the texts of its members. -/
theorem membersText_eq_intercalate (members : List (String × Json)) :
    membersText members = List.intercalate [','] (members.map memberText) ++ ['\x7d'] := by
  cases members with
  | nil => rfl
  | cons member rest =>
    rw [membersText, List.map_cons, intercalate_cons, writeMembers_eq_flatMap, memberText]

/-- There are fewer members than characters, and none is longer than the object. -/
theorem length_le_membersText (members : List (String × Json)) :
    members.length ≤ (membersText members).length ∧ ∀ member ∈ members,
      member.1.toList.length ≤ (membersText members).length ∧
        (write member.2).length ≤ (membersText members).length := by
  obtain ⟨hcount, hlength⟩ := length_le_intercalate (members.map memberText)
  rw [List.length_map] at hcount
  rw [membersText_eq_intercalate, List.length_append, List.length_singleton]
  refine ⟨hcount, fun member hmember ↦ ?_⟩
  have htext := hlength _ (List.mem_map_of_mem hmember)
  have hname := length_le_writeString member.1
  rw [memberText, List.length_append, List.length_cons] at htext
  omega

/-- An object is read back from its text. -/
theorem members_membersText (entries : List ι)
    (hread : ∀ entry ∈ entries, ReadsBack read (document entry) (result entry)) {bound limit : ℕ}
    (hbound : ∀ entry ∈ entries, (name entry).toList.length < bound)
    (hlimit : entries.length < limit) (rest : List Char) :
    members bound read true limit
        (membersText (entries.map fun entry ↦ (name entry, document entry)) ++ rest) =
      .ok (entries.map fun entry ↦ (name entry, result entry), rest) := by
  have hmember : ∀ entry ∈ entries, IsMember bound read
      (memberText (name entry, document entry)) (name entry) (result entry) := by
    intro entry hentry
    refine ⟨write (document entry), fun after ↦ ?_, hread entry hentry⟩
    rw [memberText, List.append_assoc]
    exact startsString_writeString (hbound entry hentry) _
  have hblank : skipSpace [] = [] := rfl
  have hmembers := members_intercalate (fun entry ↦ memberText (name entry, document entry)) name
    result entries hmember hlimit hblank rest
  rw [membersText_eq_intercalate, List.map_map, List.append_assoc]
  exact hmembers

end Containers

/-! ### Scalars -/

section Scalars

variable {limit depth : ℕ}

theorem readsBack_null : ReadsBack (value limit depth) .null .null := by
  intro rest hrest
  obtain ⟨inner, hinner⟩ := exists_inner limit depth
  rw [hinner]
  exact valueWith_of_reading (.null rfl rfl)

theorem readsBack_bool (b : Bool) : ReadsBack (value limit depth) (.bool b) (.bool b) := by
  intro rest hrest
  obtain ⟨inner, hinner⟩ := exists_inner limit depth
  rw [hinner]
  cases b with
  | true => exact valueWith_of_reading (.true rfl rfl)
  | false => exact valueWith_of_reading (.false rfl rfl)

theorem readsBack_string {s : String} (hlimit : s.toList.length < limit) :
    ReadsBack (value limit depth) (.string s) (.string s) := by
  intro rest hrest
  obtain ⟨inner, hinner⟩ := exists_inner limit depth
  obtain ⟨tail, hskip, hread⟩ := startsString_writeString hlimit rest
  rw [hinner]
  exact valueWith_of_reading (.string hskip hread)

/-- A number is read back as what its text is read as, if that is a literal. -/
theorem readsBack_number {literal : Literal} {n m : Number} (htext : literal.text = writeNumber n)
    (hnumber : literal.number? = some m) :
    ReadsBack (value limit depth) (.number n) (.number m) := by
  intro rest hrest
  obtain ⟨inner, hinner⟩ := exists_inner limit depth
  have hblank : skipSpace [] = [] := rfl
  have hwrite : write (.number n) = literal.text := htext.symm
  rw [hinner, hwrite]
  exact valueWith_literal hblank literal (hrest.ends literal) hnumber

theorem writeInteger_eq_toString (n : ℤ) : writeInteger n = (toString n).toList := by
  rw [writeInteger, Int.toString_eq_repr, Int.repr_eq_if]
  by_cases hnegative : n < 0
  · have hnatAbs : (-n).toNat = n.natAbs := by omega
    rw [if_pos hnegative, if_neg (Int.not_le.mpr hnegative), hnatAbs]
    simp
  · have hnatAbs : n.toNat = n.natAbs := by omega
    rw [if_neg hnegative, if_pos (Int.not_lt.mp hnegative), hnatAbs]
    simp

end Scalars

end Segmentation.Json
