import Mathlib
import Segmentation.Proofs.Event.Body
import Segmentation.Proofs.Event.RoundTrip
import Segmentation.Proofs.Json.Verbatim

/-!
# The readers of events agree

`Event.read` reads a whole document and turns it into an event; `Event.readMap` reads a map from
names to values and refuses anything else as soon as it is met. `Writes` says of a text, without
either reader, that it is an object with some entries, in which no more brackets are open at once
than may be. Both readers accept exactly these texts and give the same event (`readers_agree`): the
value of the object in which, at every depth, the last entry of a name counts.
-/

set_option autoImplicit false

namespace Segmentation.Event

variable {text : String} {event : Event} {entries : List (String × Json)}

/-! ### The two readers -/

theorem readMap_eq_ok_iff : readMap text = .ok event ↔
    ∃ document, Json.read text = .ok document ∧ ofJson document = .ok event := by
  simp only [readMap, Json.map_eq_ok_iff, Json.readWith_mapOf_eq_ok_iff]
  constructor
  · rintro ⟨members, hread, hevent⟩
    exact ⟨.object members, hread, ofJson_eq_ok_iff.mpr ⟨members, rfl, hevent⟩⟩
  · rintro ⟨document, hread, hdocument⟩
    obtain ⟨members, rfl, hevent⟩ := ofJson_eq_ok_iff.mp hdocument
    exact ⟨members, hread, hevent⟩

theorem readMap_eq_ok_iff_read : readMap text = .ok event ↔ read text = .ok event :=
  readMap_eq_ok_iff.trans read_eq_ok_iff.symm

/-! ### The texts of events -/

/-- The whole of the text is an object with these entries, as they are written, and no more brackets
are open in it at once than may be. -/
def Writes (text : String) (entries : List (String × Json)) : Prop :=
  Json.nesting text.toList ≤ Json.maxDepth ∧
    ∃ depth, Json.readWith (fun limit ↦ Json.verbatim limit depth) text = .ok (.object entries)

theorem settled_eq_object_iff {document : Json} {members : List (String × Json)} :
    document.settled = .object members ↔ ∃ entries, document = .object entries ∧
      Members.ofList (Json.settledMembers entries) = members := by
  cases document <;> simp [Json.settled]

/-- A document is an object exactly if its text writes one. -/
theorem read_eq_object_iff {members : List (String × Json)} :
    Json.read text = .ok (.object members) ↔ ∃ entries, Writes text entries ∧
      Members.ofList (Json.settledMembers entries) = members := by
  constructor
  · intro h
    obtain ⟨rest, hvalue, hrest⟩ := Json.readWith_eq_ok_iff.mp h
    have hnesting := ((Json.value_eq_ok_iff_nesting hrest).mp hvalue).1
    obtain ⟨written, hwritten, hsettled⟩ := Json.value_eq_ok_iff_verbatim.mp hvalue
    obtain ⟨entries, rfl, hmembers⟩ := settled_eq_object_iff.mp hsettled
    exact ⟨entries, ⟨hnesting, _, Json.readWith_eq_ok_iff.mpr ⟨rest, hwritten, hrest⟩⟩, hmembers⟩
  · rintro ⟨entries, ⟨hnesting, depth, hread⟩, rfl⟩
    obtain ⟨rest, hwritten, hrest⟩ := Json.readWith_eq_ok_iff.mp hread
    have hvalue := Json.value_eq_ok_iff_verbatim.mpr ⟨_, hwritten, rfl⟩
    exact Json.readWith_eq_ok_iff.mpr
      ⟨rest, (Json.value_eq_ok_iff_nesting hrest).mpr ⟨hnesting, depth, hvalue⟩, hrest⟩

theorem toValue_injective : Function.Injective toValue := fun _ _ h ↦
  Event.ext (Value.object.inj h)

/-- An event is read from the texts that write an object with its value. -/
theorem read_eq_ok_iff_writes : read text = .ok event ↔ ∃ entries, Writes text entries ∧
    event.toValue = Value.ofJson (Json.object entries).settled := by
  have hvalue : ∀ {document event}, Json.read text = .ok document → ofJson document = .ok event →
      event.toValue = Value.ofJson document := by
    intro document event hread hevent
    obtain ⟨rest, hvalue, -⟩ := Json.readWith_eq_ok_iff.mp hread
    exact ofJson_of_isDocument (Value.isDocument_of_value hvalue) hevent
  constructor
  · intro h
    obtain ⟨document, hread, hevent⟩ := read_eq_ok_iff.mp h
    obtain ⟨members, rfl, -⟩ := ofJson_eq_ok_iff.mp hevent
    obtain ⟨entries, hwrites, rfl⟩ := read_eq_object_iff.mp hread
    exact ⟨entries, hwrites, hvalue hread hevent⟩
  · rintro ⟨entries, hwrites, htoValue⟩
    have hread := read_eq_object_iff.mpr ⟨entries, hwrites, rfl⟩
    obtain ⟨found, hfound⟩ : ∃ found, ofJson (Json.object entries).settled = .ok found :=
      ⟨_, ofJson_eq_ok_iff.mpr ⟨_, rfl, rfl⟩⟩
    have hsame : found = event :=
      toValue_injective ((hvalue hread hfound).trans htoValue.symm)
    exact read_eq_ok_iff.mpr ⟨_, hread, hsame ▸ hfound⟩

/-! ### The last entry of a name -/

/-- The members of an object that is settled are found by the last entry of their name. -/
theorem child?_settled (entries : List (String × Json)) (name : String) :
    (Value.ofJson (Json.object entries).settled).child? name =
      (Members.get? name entries.reverse).map fun document ↦ Value.ofJson document.settled := by
  rw [Json.settled, Json.settledMembers_eq_map, Value.ofJson, Value.ofJsonMembers_eq_map,
    Value.child?, Members.get?_map, Members.get?_ofList, ← List.map_reverse, Members.get?_map,
    Option.map_map]
  rfl

theorem exists_error_iff {ε α : Type} {outcome : Except ε α} :
    (∃ error, outcome = .error error) ↔ ¬∃ a, outcome = .ok a := by
  cases outcome <;> simp

/-- The two readers of events agree. They accept the same texts, those that write an object in which
no more brackets are open at once than may be, and give the same event: the value of that object. In
it the last entry of each name counts, and in the same way in every object inside it. Any other text
is refused by both. -/
theorem readers_agree (text : String) :
    (∀ event, read text = .ok event ↔ readMap text = .ok event) ∧
    (∀ event, read text = .ok event ↔ ∃ entries, Writes text entries ∧
      event.toValue = Value.ofJson (Json.object entries).settled) ∧
    ((∃ error, read text = .error error) ↔ ¬∃ entries, Writes text entries) ∧
    ((∃ error, readMap text = .error error) ↔ ¬∃ entries, Writes text entries) ∧
    ∀ entries name, (Value.ofJson (Json.object entries).settled).child? name =
      (Members.get? name entries.reverse).map fun document ↦ Value.ofJson document.settled := by
  have haccepts : (∃ event, read text = .ok event) ↔ ∃ entries, Writes text entries := by
    constructor
    · rintro ⟨event, h⟩
      obtain ⟨entries, hwrites, -⟩ := read_eq_ok_iff_writes.mp h
      exact ⟨entries, hwrites⟩
    · rintro ⟨entries, hwrites⟩
      have hread := read_eq_object_iff.mpr ⟨entries, hwrites, rfl⟩
      exact ⟨_, read_eq_ok_iff.mpr ⟨_, hread, ofJson_eq_ok_iff.mpr ⟨_, rfl, rfl⟩⟩⟩
  refine ⟨fun event ↦ readMap_eq_ok_iff_read.symm, fun event ↦ read_eq_ok_iff_writes, ?_, ?_,
    child?_settled⟩
  · rw [exists_error_iff, haccepts]
  · rw [exists_error_iff, ← haccepts]
    simp only [readMap_eq_ok_iff_read]

end Segmentation.Event
