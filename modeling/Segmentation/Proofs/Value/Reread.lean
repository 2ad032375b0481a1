import Mathlib
import Segmentation.Proofs.Json.Written
import Segmentation.Proofs.Members
import Segmentation.Value.Comparison

/-!
# Values read back from their JSON texts

`IsDocument depth` describes the values that a document of a nesting depth can have: finite numbers,
no wide integers, and objects in the order of their names. The reader gives no others
(`isDocument_of_value`). Written as JSON, such a value is read back with the same names, the same
lists and the same scalars, but with every number replaced by the double that its text is read as
(`readsBack_toJson`), which is `mapNumbers` of `Json.reread`.
-/

set_option autoImplicit false

namespace Segmentation.Value

/-! ### The numbers of a value -/

mutual

/-- The value with each of its numbers replaced. -/
def mapNumbers (f : Binary64 → Binary64) : Value → Value
  | .number x => .number (f x)
  | .array items => .array (mapItems f items)
  | .object members => .object (mapMembers f members)
  | .null => .null
  | .boolean b => .boolean b
  | .bigint n => .bigint n
  | .string s => .string s

def mapItems (f : Binary64 → Binary64) : List Value → List Value
  | [] => []
  | item :: rest => mapNumbers f item :: mapItems f rest

def mapMembers (f : Binary64 → Binary64) : List (String × Value) → List (String × Value)
  | [] => []
  | (name, value) :: rest => (name, mapNumbers f value) :: mapMembers f rest

end

mutual

/-- The numbers of a value, from the first to the last. -/
def numbers : Value → List Binary64
  | .number x => [x]
  | .array items => numbersOfItems items
  | .object members => numbersOfMembers members
  | .null => []
  | .boolean _ => []
  | .bigint _ => []
  | .string _ => []

def numbersOfItems : List Value → List Binary64
  | [] => []
  | item :: rest => numbers item ++ numbersOfItems rest

def numbersOfMembers : List (String × Value) → List Binary64
  | [] => []
  | (_, value) :: rest => numbers value ++ numbersOfMembers rest

end

/-! ### Entry by entry -/

theorem mapItems_eq_map (f : Binary64 → Binary64) (items : List Value) :
    mapItems f items = items.map (mapNumbers f) := by
  induction items with
  | nil => rfl
  | cons item rest ih => rw [mapItems, ih, List.map_cons]

theorem mapMembers_eq_map (f : Binary64 → Binary64) (members : List (String × Value)) :
    mapMembers f members = members.map fun member ↦ (member.1, mapNumbers f member.2) := by
  induction members with
  | nil => rfl
  | cons member rest ih =>
    obtain ⟨name, value⟩ := member
    rw [mapMembers, ih, List.map_cons]

theorem toJsonItems_eq_map (items : List Value) : toJsonItems items = items.map toJson := by
  induction items with
  | nil => rfl
  | cons item rest ih => rw [toJsonItems, ih, List.map_cons]

theorem toJsonMembers_eq_map (members : List (String × Value)) :
    toJsonMembers members = members.map fun member ↦ (member.1, member.2.toJson) := by
  induction members with
  | nil => rfl
  | cons member rest ih =>
    obtain ⟨name, value⟩ := member
    rw [toJsonMembers, ih, List.map_cons]

theorem ofJsonItems_eq_map (items : List Json) : ofJsonItems items = items.map ofJson := by
  induction items with
  | nil => rfl
  | cons item rest ih => rw [ofJsonItems, ih, List.map_cons]

theorem ofJsonMembers_eq_map (members : List (String × Json)) :
    ofJsonMembers members = members.map fun member ↦ (member.1, ofJson member.2) := by
  induction members with
  | nil => rfl
  | cons member rest ih =>
    obtain ⟨name, value⟩ := member
    rw [ofJsonMembers, ih, List.map_cons]

/-! ### Equality by content -/

mutual

/-- A value with its numbers replaced has the same content exactly if each number is the same. -/
theorem sameContent_mapNumbers (f : Binary64 → Binary64) : ∀ value : Value,
    (value.mapNumbers f).sameContent value = true ↔ ∀ x ∈ value.numbers, (f x).equals x = true
  | .null => by simp [mapNumbers, sameContent, numbers]
  | .boolean b => by simp [mapNumbers, sameContent, numbers]
  | .number x => by simp [mapNumbers, sameContent, numbers]
  | .bigint n => by simp [mapNumbers, sameContent, numbers]
  | .string s => by simp [mapNumbers, sameContent, numbers]
  | .array items => by
    rw [mapNumbers, sameContent, numbers]
    exact sameItems_mapItems f items
  | .object members => by
    rw [mapNumbers, sameContent, numbers]
    exact sameMembers_mapMembers f members

theorem sameItems_mapItems (f : Binary64 → Binary64) : ∀ items : List Value,
    sameItems (mapItems f items) items = true ↔
      ∀ x ∈ numbersOfItems items, (f x).equals x = true
  | [] => by simp [mapItems, sameItems, numbersOfItems]
  | item :: rest => by
    simp only [mapItems, sameItems, numbersOfItems, Bool.and_eq_true, List.forall_mem_append]
    rw [sameContent_mapNumbers f item, sameItems_mapItems f rest]

theorem sameMembers_mapMembers (f : Binary64 → Binary64) : ∀ members : List (String × Value),
    sameMembers (mapMembers f members) members = true ↔
      ∀ x ∈ numbersOfMembers members, (f x).equals x = true
  | [] => by simp [mapMembers, sameMembers, numbersOfMembers]
  | (name, value) :: rest => by
    simp only [mapMembers, sameMembers, numbersOfMembers, Bool.and_eq_true, beq_self_eq_true,
      true_and, List.forall_mem_append]
    rw [sameContent_mapNumbers f value, sameMembers_mapMembers f rest]

end

/-! ### Values of documents -/

/-- The value of a document that opens no more than some brackets at once. -/
inductive IsDocument : ℕ → Value → Prop
  | null (depth : ℕ) : IsDocument depth .null
  | boolean (depth : ℕ) (b : Bool) : IsDocument depth (.boolean b)
  | number (depth : ℕ) (negative : Bool) (rank : Fin Binary64.rankBound) :
    IsDocument depth (.number (.finite negative rank))
  | string (depth : ℕ) (s : String) : IsDocument depth (.string s)
  | array {depth : ℕ} {items : List Value} (h : ∀ item ∈ items, IsDocument depth item) :
    IsDocument (depth + 1) (.array items)
  | object {depth : ℕ} {members : List (String × Value)} (hordered : Members.Ordered members)
    (h : ∀ member ∈ members, IsDocument depth member.2) : IsDocument (depth + 1) (.object members)

theorem exists_of_isDocument_object {depth : ℕ} {members : List (String × Value)}
    (h : IsDocument depth (.object members)) :
    ∃ smaller, depth = smaller + 1 ∧ ∀ member ∈ members, IsDocument smaller member.2 := by
  cases h with
  | object hordered h => exact ⟨_, rfl, h⟩

/-- What a value reads is the value of a document. -/
theorem isDocument_of_valueWith {limit depth : ℕ} {inner : Option (Json.Scan Json)}
    (hinner : ∀ read, inner = some read → ∃ smaller, depth = smaller + 1 ∧
      ∀ {text rest : List Char} {document : Json}, read text = .ok (document, rest) →
        IsDocument smaller (ofJson document)) {text rest : List Char} {document : Json}
    (h : Json.valueWith limit inner text = .ok (document, rest)) :
    IsDocument depth (ofJson document) := by
  have hreading := Json.reading_of_valueWith h
  cases hreading with
  | string hskip hread => exact .string depth _
  | null hskip hread => exact .null depth
  | true hskip hread => exact .boolean depth true
  | false hskip hread => exact .boolean depth false
  | number hskip hc hread =>
    obtain ⟨negative, rank, hfinite⟩ := Json.exists_finite_of_valueWith h
    rw [ofJson, hfinite]
    exact .number depth negative rank
  | array hsome hskip hread =>
    obtain ⟨smaller, rfl, hsmaller⟩ := hinner _ hsome
    rw [ofJson, ofJsonItems_eq_map]
    refine .array ?_
    intro item hitem
    obtain ⟨document, hdocument, rfl⟩ := List.mem_map.mp hitem
    exact Json.forall_mem_items (P := fun document ↦ IsDocument smaller (ofJson document))
      hsmaller hread document hdocument
  | object hsome hskip hread =>
    obtain ⟨smaller, rfl, hsmaller⟩ := hinner _ hsome
    rw [ofJson, ofJsonMembers_eq_map]
    refine .object (Members.ordered_map _ (Members.ordered_ofList _)) ?_
    intro member hmember
    obtain ⟨entry, hentry, rfl⟩ := List.mem_map.mp hmember
    exact Json.forall_mem_members (P := fun document ↦ IsDocument smaller (ofJson document))
      hsmaller hread entry (Members.mem_of_mem_ofList hentry)

/-- The reader gives values of documents only. -/
theorem isDocument_of_value {limit depth : ℕ} {text rest : List Char} {document : Json}
    (h : Json.value limit depth text = .ok (document, rest)) :
    IsDocument depth (ofJson document) := by
  induction depth generalizing text rest document with
  | zero => exact isDocument_of_valueWith (fun read hread ↦ absurd hread (by simp)) h
  | succ depth ih =>
    refine isDocument_of_valueWith (fun read hread ↦ ⟨depth, rfl, ?_⟩) h
    rw [← Option.some.inj hread]
    exact ih

/-- Such a value is the value of its own document. -/
theorem ofJson_toJson {depth : ℕ} {value : Value} (h : IsDocument depth value) :
    ofJson value.toJson = value := by
  induction h with
  | null depth => rfl
  | boolean depth b => rfl
  | number depth negative rank => rfl
  | string depth s => rfl
  | array h ih =>
    rw [toJson, ofJson, toJsonItems_eq_map, ofJsonItems_eq_map, List.map_map]
    congr 1
    exact (List.map_congr_left fun item hitem ↦ ih item hitem).trans (List.map_id _)
  | object hordered h ih =>
    rw [toJson, ofJson, toJsonMembers_eq_map, ofJsonMembers_eq_map, List.map_map]
    congr 1
    refine (List.map_congr_left fun member hmember ↦ ?_).trans (List.map_id _)
    exact Prod.ext rfl (ih member hmember)

/-- It remains one if its numbers are replaced by finite ones. -/
theorem IsDocument.mapNumbers {f : Binary64 → Binary64}
    (hf : ∀ negative rank, ∃ sign next, f (.finite negative rank) = .finite sign next) {depth : ℕ}
    {value : Value} (h : IsDocument depth value) : IsDocument depth (value.mapNumbers f) := by
  induction h with
  | null depth => exact .null depth
  | boolean depth b => exact .boolean depth b
  | number depth negative rank =>
    obtain ⟨sign, next, hnext⟩ := hf negative rank
    rw [Value.mapNumbers, hnext]
    exact .number depth sign next
  | string depth s => exact .string depth s
  | array h ih =>
    rw [Value.mapNumbers, mapItems_eq_map]
    refine .array ?_
    intro item hitem
    obtain ⟨other, hother, rfl⟩ := List.mem_map.mp hitem
    exact ih other hother
  | object hordered h ih =>
    rw [Value.mapNumbers, mapMembers_eq_map]
    refine .object (Members.ordered_map _ hordered) ?_
    intro member hmember
    obtain ⟨other, hother, rfl⟩ := List.mem_map.mp hmember
    exact ih other hother

theorem mem_numbersOfItems {items : List Value} {x : Binary64} (h : x ∈ numbersOfItems items) :
    ∃ item ∈ items, x ∈ item.numbers := by
  induction items with
  | nil => exact absurd h List.not_mem_nil
  | cons item rest ih =>
    rcases List.mem_append.mp h with hitem | hrest
    · exact ⟨item, List.mem_cons_self, hitem⟩
    · obtain ⟨other, hother, hx⟩ := ih hrest
      exact ⟨other, List.mem_cons_of_mem _ hother, hx⟩

theorem mem_numbersOfMembers {members : List (String × Value)} {x : Binary64}
    (h : x ∈ numbersOfMembers members) : ∃ member ∈ members, x ∈ member.2.numbers := by
  induction members with
  | nil => exact absurd h List.not_mem_nil
  | cons member rest ih =>
    rcases List.mem_append.mp h with hmember | hrest
    · exact ⟨member, List.mem_cons_self, hmember⟩
    · obtain ⟨other, hother, hx⟩ := ih hrest
      exact ⟨other, List.mem_cons_of_mem _ hother, hx⟩

/-- The numbers of a document are finite. -/
theorem IsDocument.exists_finite {depth : ℕ} {value : Value} (h : IsDocument depth value)
    {x : Binary64} (hx : x ∈ value.numbers) : ∃ negative rank, x = .finite negative rank := by
  induction h with
  | null depth => exact absurd hx List.not_mem_nil
  | boolean depth b => exact absurd hx List.not_mem_nil
  | number depth negative rank => exact ⟨negative, rank, List.mem_singleton.mp hx⟩
  | string depth s => exact absurd hx List.not_mem_nil
  | array h ih =>
    obtain ⟨item, hitem, hx⟩ := mem_numbersOfItems hx
    exact ih item hitem hx
  | object hordered h ih =>
    obtain ⟨member, hmember, hx⟩ := mem_numbersOfMembers hx
    exact ih member hmember hx

/-! ### Reading back -/

open Json (ReadsBack)

variable {limit depth : ℕ}

/-- A finite number is read back as some finite number. -/
theorem toJson_reread (negative : Bool) (rank : Fin Binary64.rankBound) :
    (Value.number (Json.reread (.finite negative rank))).toJson =
      .number (.double (Json.reread (.finite negative rank))) := by
  obtain ⟨next, hnext⟩ := Json.exists_finite_reread negative rank
  rw [hnext]
  rfl

theorem readsBack_number (negative : Bool) (rank : Fin Binary64.rankBound) :
    ReadsBack (Json.value limit depth) (.number (.double (.finite negative rank)))
      (.number (.double (Json.reread (.finite negative rank)))) := by
  obtain ⟨literal, h⟩ := Json.exists_rereads negative rank
  exact Json.readsBack_number h.text_eq h.number?_eq

/-- Members are read back with their numbers reread, in whatever order they are written. -/
theorem readsBack_members {members : List (String × Value)}
    (hread : ∀ member ∈ members, (Json.write member.2.toJson).length < limit →
      ReadsBack (Json.value limit depth) member.2.toJson
        (member.2.mapNumbers Json.reread).toJson)
    (hlimit : (Json.write (Value.object members).toJson).length < limit) :
    ReadsBack (Json.value limit (depth + 1)) (Value.object members).toJson
      (.object (Members.ofList (members.map fun member ↦
        (member.1, (member.2.mapNumbers Json.reread).toJson)))) := by
  intro rest hrest
  rw [toJson, toJsonMembers_eq_map, Json.write_object, List.length_cons] at hlimit
  have hlength := Json.length_le_membersText
    (members.map fun member ↦ (member.1, member.2.toJson))
  rw [List.length_map] at hlength
  have hvalue : ∀ member ∈ members, ReadsBack (Json.value limit depth) member.2.toJson
      (member.2.mapNumbers Json.reread).toJson := by
    intro member hmember
    have hle : (Json.write member.2.toJson).length ≤ _ :=
      (hlength.2 _ (List.mem_map_of_mem hmember)).2
    exact hread member hmember (by omega)
  have hname : ∀ member ∈ members, member.1.toList.length < limit := by
    intro member hmember
    have hle : member.1.toList.length ≤ _ := (hlength.2 _ (List.mem_map_of_mem hmember)).1
    omega
  have hmembers := Json.members_membersText (fun member : String × Value ↦ member.2.toJson)
    (fun member ↦ (member.2.mapNumbers Json.reread).toJson) Prod.fst members hvalue hname
    (show members.length < limit by omega) rest
  rw [toJson, toJsonMembers_eq_map, Json.write_object]
  exact Json.valueWith_of_reading
    (.object rfl (show Json.skipSpace ('\x7b' :: _) = _ from rfl) hmembers)

theorem toJson_mapNumbers_object (f : Binary64 → Binary64) (members : List (String × Value)) :
    ((Value.object members).mapNumbers f).toJson =
      .object (members.map fun member ↦ (member.1, (member.2.mapNumbers f).toJson)) := by
  rw [mapNumbers, toJson, mapMembers_eq_map, toJsonMembers_eq_map, List.map_map]
  rfl

/-- The value of a document is read back from its text with its numbers reread. -/
theorem readsBack_toJson {value : Value} (h : IsDocument depth value)
    (hlimit : (Json.write value.toJson).length < limit) :
    ReadsBack (Json.value limit depth) value.toJson (value.mapNumbers Json.reread).toJson := by
  induction h with
  | null depth => exact Json.readsBack_null
  | boolean depth b => exact Json.readsBack_bool b
  | number depth negative rank =>
    rw [mapNumbers, toJson_reread]
    exact readsBack_number negative rank
  | string depth s =>
    have hlength := Json.length_le_writeString s
    have htext : Json.write (Value.string s).toJson = Json.writeString s := rfl
    rw [htext] at hlimit
    exact Json.readsBack_string (by omega)
  | @array depth items h ih =>
    intro rest hrest
    rw [toJson, toJsonItems_eq_map, Json.write_array, List.length_cons] at hlimit
    have hlength := Json.length_le_itemsText (items.map toJson)
    rw [List.length_map] at hlength
    have hitem : ∀ item ∈ items, ReadsBack (Json.value limit depth) item.toJson
        (item.mapNumbers Json.reread).toJson := by
      intro item hitem
      have hle := hlength.2 _ (List.mem_map_of_mem hitem)
      exact ih item hitem (by omega)
    have hitems := Json.items_itemsText toJson
      (fun item ↦ (item.mapNumbers Json.reread).toJson) items hitem
      (show items.length < limit by omega) rest
    have hresult : ((Value.array items).mapNumbers Json.reread).toJson =
        .array (items.map fun item ↦ (item.mapNumbers Json.reread).toJson) := by
      rw [mapNumbers, toJson, mapItems_eq_map, toJsonItems_eq_map, List.map_map]
      rfl
    rw [toJson, toJsonItems_eq_map, Json.write_array, hresult]
    exact Json.valueWith_of_reading (.array rfl rfl hitems)
  | object hordered h ih =>
    have hread := readsBack_members ih hlimit
    rw [Members.ofList_of_ordered (Members.ordered_map _ hordered)] at hread
    rw [toJson_mapNumbers_object]
    exact hread

end Segmentation.Value
