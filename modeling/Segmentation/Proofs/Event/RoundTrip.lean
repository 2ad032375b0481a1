import Mathlib
import Segmentation.Event
import Segmentation.Proofs.Value.Reread

/-!
# Events read back from their JSON texts

An event that was read from a text can be written as a text again, and that text is always read,
whatever the order in which its properties are written. `read_compact_toJson` states what comes
back: the event with the same names, lists and scalars, but with every number as its own text is
read. So it is an equal event exactly if each number is read back as an equal one. Numbers whose
text is an exact literal are, others are at most seven representable numbers away.
`round_trip_differs` is an event that does not come back.
-/

set_option autoImplicit false

namespace Segmentation.Event

open Json (Literal)

/-! ### The numbers of an event -/

/-- The event with each of its numbers replaced. -/
def mapNumbers (f : Binary64 → Binary64) (event : Event) : Event where
  properties := Value.mapMembers f event.properties
  ordered := by
    rw [Value.mapMembers_eq_map]
    exact Members.ordered_map _ event.ordered

/-- The numbers of an event, at any depth. -/
def numbers (event : Event) : List Binary64 := event.toValue.numbers

theorem toValue_mapNumbers (f : Binary64 → Binary64) (event : Event) :
    (event.mapNumbers f).toValue = event.toValue.mapNumbers f := rfl

/-- An ordered list of properties is the event that is built from it. -/
theorem ofList_of_ordered {properties : List (String × Value)}
    (h : Members.Ordered properties) : ofList properties = ⟨properties, h⟩ :=
  Event.ext (Members.ofList_of_ordered h)

/-! ### Reading back -/

/-- The event of a document is the value of the document. -/
theorem ofJson_of_isDocument {document : Json} {event : Event} {depth : ℕ}
    (hdocument : Value.IsDocument depth (Value.ofJson document))
    (h : ofJson document = .ok event) : event.toValue = Value.ofJson document := by
  unfold ofJson at h
  split at h
  · rename_i members hmembers
    rw [hmembers] at hdocument ⊢
    cases hdocument with
    | object hordered hvalues =>
      rw [ofList_of_ordered hordered] at h
      rw [← Except.ok.inj h]
      rfl
  · exact absurd h (by simp)

/-- An event that is read is the value of a document. -/
theorem isDocument_of_read {text : String} {event : Event} (h : read text = .ok event) :
    Value.IsDocument Json.maxDepth event.toValue := by
  unfold read at h
  split at h
  · rename_i document hdocument
    obtain ⟨rest, hvalue, -⟩ := Json.readWith_eq_ok_iff.mp hdocument
    have hisDocument := Value.isDocument_of_value hvalue
    rw [ofJson_of_isDocument hisDocument h]
    exact hisDocument
  · exact absurd h (by simp)

/-- A document is read from its compact text as what is read back of it. -/
theorem read_compact {document result : Json}
    (h : Json.ReadsBack (Json.value ((Json.write document).length + 1) Json.maxDepth) document
      result) : Json.read (Json.compact document) = .ok result := by
  have htext : (Json.compact document).toList = Json.write document := String.toList_ofList
  have hread := h [] Json.separated_nil
  rw [List.append_nil] at hread
  rw [Json.read, Json.readWith_eq_ok_iff, htext]
  exact ⟨[], hread, rfl⟩

/-- The properties of an event are read from their text, with their numbers reread. -/
theorem read_compact_properties {event : Event}
    (h : Value.IsDocument Json.maxDepth event.toValue) {entries : List (String × Value)}
    (hentries : entries.Perm event.properties) :
    Json.read (Json.compact (Value.object entries).toJson) =
      .ok (event.toValue.mapNumbers Json.reread).toJson := by
  obtain ⟨depth, hdepth, hvalues⟩ := Value.exists_of_isDocument_object h
  have hvalues' : ∀ entry ∈ entries, Value.IsDocument depth entry.2 := fun entry hentry ↦
    hvalues entry (hentries.mem_iff.mp hentry)
  have hread := Value.readsBack_members
    (fun entry hentry hlimit ↦ Value.readsBack_toJson (hvalues' entry hentry) hlimit)
    (Nat.lt_succ_self (Json.write (Value.object entries).toJson).length)
  rw [← hdepth, Members.ofList_of_perm (hentries.map _)
    (Members.ordered_map _ event.ordered)] at hread
  rw [toValue, Value.toJson_mapNumbers_object]
  exact read_compact hread

/-- What comes back of an event that was read, written with its properties in any order, and read
again. -/
theorem read_compact_toJson {text : String} {event : Event} (h : read text = .ok event) :
    (∀ entries : List (String × Value), entries.Perm event.properties →
      read (Json.compact (Value.object entries).toJson) = .ok (event.mapNumbers Json.reread)) ∧
      read (Json.compact event.toJson) = .ok (event.mapNumbers Json.reread) ∧
      ((event.mapNumbers Json.reread).sameContent event = true ↔
        ∀ x ∈ event.numbers, (Json.reread x).equals x = true) ∧
      ∀ x ∈ event.numbers, Binary64.Near 7 (Json.reread x) x ∧
        (∀ literal : Literal, literal.text = Json.writeDouble x → literal.IsExact →
          Json.reread x = x) ∧
        ∀ n : ℤ, n.natAbs * 10 ≤ 2 ^ 53 → x = .ofInt n → Json.reread x = x := by
  have hdocument := isDocument_of_read h
  have hreread : Value.IsDocument Json.maxDepth (event.toValue.mapNumbers Json.reread) :=
    hdocument.mapNumbers fun negative rank ↦ by
      obtain ⟨next, hnext⟩ := Json.exists_finite_reread negative rank
      exact ⟨negative, next, hnext⟩
  have hagain : ∀ entries : List (String × Value), entries.Perm event.properties →
      read (Json.compact (Value.object entries).toJson) =
        .ok (event.mapNumbers Json.reread) := by
    intro entries hentries
    rw [read, read_compact_properties hdocument hentries]
    show ofJson (event.toValue.mapNumbers Json.reread).toJson = _
    rw [ofJson, Value.ofJson_toJson hreread, ← toValue_mapNumbers]
    exact congrArg Except.ok (ofList_of_ordered (event.mapNumbers Json.reread).ordered)
  refine ⟨hagain, hagain event.properties (.refl _),
    Value.sameContent_mapNumbers Json.reread event.toValue, fun x hx ↦ ?_⟩
  obtain ⟨negative, rank, rfl⟩ := hdocument.exists_finite hx
  refine ⟨Json.near_reread negative rank, ?_, ?_⟩
  · intro literal htext hexact
    exact Json.reread_of_isExact htext hexact
  · intro n hsmall heq
    rw [heq]
    exact Json.reread_ofInt hsmall

/-- A nested event with a fraction, a flag and a text comes back as it was, with its properties in
either order. -/
theorem read_compact_toJson_nested : ∃ event,
    read "\x7b\"a\":[123.1,\x7b\"b\":true\x7d],\"c\":\"\\n\"\x7d" = .ok event ∧
      read (Json.compact event.toJson) = .ok (event.mapNumbers Json.reread) ∧
      read (Json.compact (Value.object event.properties.reverse).toJson) =
        .ok (event.mapNumbers Json.reread) ∧
      (event.mapNumbers Json.reread).sameContent event = true := by
  have hrun : (read "\x7b\"a\":[123.1,\x7b\"b\":true\x7d],\"c\":\"\\n\"\x7d").toOption.any
      (fun event ↦ event.numbers.all fun x ↦ (Json.reread x).equals x) = true := by
    decide +kernel
  obtain ⟨event, hread, hnumbers⟩ := Json.any_toOption.mp hrun
  obtain ⟨hrearranged, hagain, hsame, -⟩ := read_compact_toJson hread
  exact ⟨event, hread, hagain, hrearranged _ (List.reverse_perm _),
    hsame.mpr (List.all_eq_true.mp hnumbers)⟩

/-- The number `9007199254740991` is written with a zero behind the point, and is then read as the
double below it. -/
theorem round_trip_differs : ∃ event again,
    read "\x7b\"p\":9007199254740991\x7d" = .ok event ∧
      Json.compact event.toJson = "\x7b\"p\":9007199254740991.0\x7d" ∧
      read (Json.compact event.toJson) = .ok again ∧ again.sameContent event = false := by
  have hrun : (read "\x7b\"p\":9007199254740991\x7d").toOption.any (fun event ↦
      Json.compact event.toJson == "\x7b\"p\":9007199254740991.0\x7d" &&
        (read (Json.compact event.toJson)).toOption.any fun again ↦
          !again.sameContent event) = true := by
    decide +kernel
  obtain ⟨event, hread, htest⟩ := Json.any_toOption.mp hrun
  rw [Bool.and_eq_true, beq_iff_eq] at htest
  obtain ⟨again, hagain, hdiffers⟩ := Json.any_toOption.mp htest.2
  rw [Bool.not_eq_true'] at hdiffers
  exact ⟨event, again, hread, htest.1, hagain, hdiffers⟩

end Segmentation.Event
