import Mathlib
import Segmentation.Proofs.Evaluation.Resolution
import Segmentation.Proofs.Members
import Segmentation.Proofs.Numeral.Integer
import Segmentation.Proofs.Value.Nested

/-!
# What paths lead to

A path is its segments joined by the separator, and splitting finds the segments again
(`segments_join`), whatever the separator is. So a path that is no name of a property leads where
its segments lead one by one (`lookup?_join`).

`Nested` describes what is stored in a value without looking anything up: the members of an object
and the items of a list, at any depth. A lookup gives nothing else (`exists_nested_of_lookup?`), and
it gives each of these values for the path that is written with the names and positions on the way
(`lookup?_of_nested`), unless the path is itself a name or the separator occurs in one of them. For
a digit as separator this can also be a position, so the names alone do not suffice
(`index_hides_value`).
-/

set_option autoImplicit false

namespace Segmentation

/-! ### Positions -/

/-- A position within a machine word is read back from its text. -/
theorem Numeral.index?_toString {position : ℕ} (h : position ≤ Word.unsignedMax) :
    index? (toString position) = some position := by
  have htext : (toString position).toList = Nat.toDigits 10 position := String.toList_ofList
  have hdigits := IsDigits.toDigits position
  have hvalue : Text.natural? 10 (Nat.toDigits 10 position) = some position :=
    Text.natural?_ten_eq_some_iff.mpr
      ⟨Nat.toDigits_ne_nil, hdigits, digitsValue_toDigits position⟩
  simp only [index?, htext]
  split
  · rename_i heq
    rw [heq] at hdigits
    exact absurd hdigits.head (by decide)
  · rw [hvalue]
    simp [h]

/-! ### Stored values -/

namespace Value

/-- A step as a segment of a path; positions are written in decimal. -/
def Step.text : Step → String
  | .key name => name
  | .index position => toString position

/-- The value can be held in memory: an object has each name once, in their order, and the positions
of a list fit a machine word. -/
inductive IsStorable : Value → Prop
  | null : IsStorable .null
  | boolean (b : Bool) : IsStorable (.boolean b)
  | number (x : Binary64) : IsStorable (.number x)
  | bigint (n : WideInteger) : IsStorable (.bigint n)
  | string (s : String) : IsStorable (.string s)
  | array {items : List Value} (hlength : items.length ≤ Word.unsignedMax)
      (hitems : ∀ item ∈ items, IsStorable item) : IsStorable (.array items)
  | object {members : List (String × Value)} (hordered : Members.Ordered members)
      (hmembers : ∀ member ∈ members, IsStorable member.2) : IsStorable (.object members)

/-- In a storable value one step leads to the member or item that it names. -/
theorem child?_member {members : List (String × Value)} (hstorable : IsStorable (.object members))
    {name : String} {value : Value} (h : (name, value) ∈ members) :
    Value.child? name (.object members) = some value := by
  cases hstorable with
  | object hordered _ => exact (Members.get?_eq_some_iff hordered).mpr h

theorem child?_item {items : List Value} (hstorable : IsStorable (.array items)) {position : ℕ}
    {value : Value} (h : items[position]? = some value) :
    Value.child? (toString position) (.array items) = some value := by
  cases hstorable with
  | array hlength _ =>
    have hposition : position < items.length := (List.getElem?_eq_some_iff.mp h).1
    rw [child?, Numeral.index?_toString (hposition.le.trans hlength)]
    exact h

/-- What one step leads to is stored there. -/
theorem exists_step_of_child? {segment : String} {value inner : Value}
    (h : value.child? segment = some inner) : ∃ step, Nested [step] value inner := by
  cases value with
  | object members => exact ⟨.key segment, .member (Members.mem_of_get? h) (.here inner)⟩
  | array items =>
    obtain ⟨position, -, hitem⟩ := Option.bind_eq_some_iff.mp h
    exact ⟨.index position, .item hitem (.here inner)⟩
  | null => exact absurd h (by simp [child?])
  | boolean b => exact absurd h (by simp [child?])
  | number x => exact absurd h (by simp [child?])
  | bigint n => exact absurd h (by simp [child?])
  | string s => exact absurd h (by simp [child?])

end Value

namespace Event

open Value (Step Nested IsStorable)

/-- An event of storable values is storable. -/
theorem isStorable_ofList {entries : List (String × Value)}
    (h : ∀ entry ∈ entries, IsStorable entry.2) : IsStorable (ofList entries).toValue :=
  .object (Members.ordered_ofList entries)
    fun member hmember ↦ h member (Members.mem_of_mem_ofList hmember)

/-- An event stays storable if a property is set to a storable value. -/
theorem isStorable_insert {event : Event} (h : IsStorable event.toValue) (name : String)
    {value : Value} (hvalue : IsStorable value) :
    IsStorable (event.insert name value).toValue := by
  cases h with
  | object hordered hmembers =>
    refine .object (Members.ordered_insert name value hordered) fun member hmember ↦ ?_
    rcases Members.mem_insert hmember with rfl | hold
    · exact hvalue
    · exact hmembers member hold

/-! ### Segments -/

/-- Segments as one path. -/
def join (separator : Char) (segments : List String) : String :=
  (String.singleton separator).intercalate segments

theorem toList_join (separator : Char) (segments : List String) :
    (join separator segments).toList =
      List.intercalate [separator] (segments.map String.toList) := by
  rw [join, String.toList_intercalate, String.toList_singleton]

/-- Joined segments are found again. -/
theorem segments_join {separator : Char} {first : String} {rest : List String}
    (h : ∀ segment ∈ first :: rest, separator ∉ segment.toList) :
    segments separator (join separator (first :: rest)) = first :: rest := by
  induction rest generalizing first with
  | nil =>
    have hfirst := h first List.mem_cons_self
    rw [join, String.intercalate_singleton, segments_of_not_mem hfirst]
  | cons second rest ih =>
    obtain ⟨hfirst, hrest⟩ := List.forall_mem_cons.mp h
    have htext : (join separator (first :: second :: rest)).toList =
        first.toList ++ separator :: (join separator (second :: rest)).toList := by
      simp [toList_join, List.intercalate_cons_cons]
    have htail := ih hrest
    rw [segments] at htail ⊢
    rw [htext, Text.splitAt_append hfirst, List.map_cons, htail, String.ofList_toList]

/-- Every path is the join of its segments, which do not contain the separator. -/
theorem exists_join (separator : Char) (path : String) : ∃ first rest,
    (∀ segment ∈ first :: rest, separator ∉ segment.toList) ∧
      join separator (first :: rest) = path := by
  cases hsplit : Text.splitAt separator path.toList with
  | nil => exact absurd hsplit (Text.splitAt_ne_nil _ _)
  | cons piece pieces =>
    refine ⟨String.ofList piece, pieces.map String.ofList, ?_, ?_⟩
    · rw [← List.map_cons, ← hsplit]
      refine List.forall_mem_map.mpr fun word hword ↦ ?_
      rw [String.toList_ofList]
      exact Text.not_mem_of_mem_splitAt hword
    · rw [← String.toList_inj, toList_join, ← List.map_cons, ← hsplit, List.map_map]
      have hid : String.toList ∘ String.ofList = id := by
        funext word
        exact String.toList_ofList
      rw [hid, List.map_id, Text.intercalate_splitAt]

/-! ### Lookups -/

variable {event : Event} {separator : Char}

/-- Stepping through segments stops at the first that is missing. -/
theorem descend_eq_bind (found : Option Value) (rest : List String) :
    descend found rest =
      found.bind fun value ↦ rest.foldlM (fun value segment ↦ value.child? segment) value := by
  induction rest generalizing found with
  | nil => cases found <;> rfl
  | cons segment rest ih =>
    rw [descend, ih]
    cases found with
    | none => rfl
    | some value => cases h : value.child? segment <;> simp [h]

/-- A path is a name, or leads where its segments lead. -/
theorem lookup?_join {first : String} {rest : List String}
    (h : ∀ segment ∈ first :: rest, separator ∉ segment.toList) :
    event.lookup? separator (join separator (first :: rest)) =
      (event.get? (join separator (first :: rest))).or
        ((event.get? first).bind fun value ↦
          rest.foldlM (fun value segment ↦ value.child? segment) value) := by
  rw [lookup?, segments_join h]
  cases event.get? (join separator (first :: rest)) with
  | some value => rfl
  | none => exact descend_eq_bind _ _

/-- Segments lead to stored values only. -/
theorem exists_nested_of_foldlM {rest : List String} {value inner : Value}
    (h : rest.foldlM (fun value segment ↦ value.child? segment) value = some inner) :
    ∃ steps, Nested steps value inner := by
  induction rest generalizing value with
  | nil =>
    obtain rfl : value = inner := Option.some.inj h
    exact ⟨[], .here value⟩
  | cons segment rest ih =>
    obtain ⟨next, hnext, hrest⟩ := Option.bind_eq_some_iff.mp h
    obtain ⟨step, hstep⟩ := Value.exists_step_of_child? hnext
    obtain ⟨steps, hsteps⟩ := ih hrest
    exact ⟨[step] ++ steps, hstep.trans hsteps⟩

/-- A lookup gives a value that is stored in the event. -/
theorem exists_nested_of_lookup? {path : String} {value : Value}
    (h : event.lookup? separator path = some value) :
    ∃ name steps, Nested (.key name :: steps) event.toValue value := by
  obtain ⟨first, rest, hsegments, rfl⟩ := exists_join separator path
  rw [lookup?_join hsegments, Option.or_eq_some_iff] at h
  rcases h with hname | ⟨-, hpath⟩
  · exact ⟨_, [], .member (Members.mem_of_get? hname) (.here value)⟩
  · obtain ⟨found, hfound, hrest⟩ := Option.bind_eq_some_iff.mp hpath
    obtain ⟨steps, hsteps⟩ := exists_nested_of_foldlM hrest
    exact ⟨first, steps, .member (Members.mem_of_get? hfound) hsteps⟩

/-- The texts of the steps lead to what is stored there. -/
theorem foldlM_of_nested {steps : List Step} {value inner : Value} (h : Nested steps value inner)
    (hstorable : IsStorable value) :
    (steps.map Step.text).foldlM (fun value segment ↦ value.child? segment) value =
      some inner := by
  induction h with
  | here _ => rfl
  | member hmember _ ih =>
    rw [List.map_cons, List.foldlM_cons, Step.text, Value.child?_member hstorable hmember]
    cases hstorable with
    | object _ hmembers => exact ih (hmembers _ hmember)
  | item hitem _ ih =>
    rw [List.map_cons, List.foldlM_cons, Step.text, Value.child?_item hstorable hitem]
    cases hstorable with
    | array _ hitems => exact ih (hitems _ (List.mem_of_getElem? hitem))

/-- A stored value is given for the path of the steps to it, unless the path is a name or one of its
segments contains the separator. -/
theorem lookup?_of_nested {steps : List Step} {inner : Value} (hne : steps ≠ [])
    (hstorable : IsStorable event.toValue) (h : Nested steps event.toValue inner)
    (hsteps : ∀ step ∈ steps, separator ∉ step.text.toList)
    (hname : event.get? (join separator (steps.map Step.text)) = none) :
    event.lookup? separator (join separator (steps.map Step.text)) = some inner := by
  cases h with
  | here _ => exact absurd rfl hne
  | member hmember h =>
    have hsegments : ∀ segment ∈ List.map Step.text (_ :: _), separator ∉ segment.toList :=
      List.forall_mem_map.mpr hsteps
    rw [List.map_cons] at hname hsegments ⊢
    rw [lookup?_join hsegments, hname, Option.none_or]
    have hfound : event.get? (Step.key _).text = some _ := Value.child?_member hstorable hmember
    rw [hfound]
    cases hstorable with
    | object _ hmembers => exact foldlM_of_nested h (hmembers _ hmember)

/-- A lookup gives the property that the path names, and else what its segments lead to, one step
after the other. Every path is the join of segments. Every stored value is given for the path of the
names and positions on the way, if neither contains the separator and the path is itself no name,
and no lookup gives anything that is not stored in the event. -/
theorem lookup_complete_exact (event : Event) (separator : Char) :
    (∀ first rest, (∀ segment ∈ first :: rest, separator ∉ segment.toList) →
      event.lookup? separator (join separator (first :: rest)) =
        match event.get? (join separator (first :: rest)) with
        | some value => some value
        | none => (event.get? first).bind fun value ↦
            rest.foldlM (fun value segment ↦ value.child? segment) value) ∧
      (∀ path, ∃ first rest, (∀ segment ∈ first :: rest, separator ∉ segment.toList) ∧
        join separator (first :: rest) = path) ∧
      (∀ steps inner, IsStorable event.toValue → steps ≠ [] → Nested steps event.toValue inner →
        (∀ step ∈ steps, separator ∉ step.text.toList) →
        event.get? (join separator (steps.map Step.text)) = none →
        event.lookup? separator (join separator (steps.map Step.text)) = some inner) ∧
      ∀ path value, event.lookup? separator path = some value →
        ∃ name steps, Nested (.key name :: steps) event.toValue value := by
  refine ⟨fun first rest hsegments ↦ ?_, exists_join separator,
    fun steps inner hstorable hne h hsteps hname ↦
      lookup?_of_nested hne hstorable h hsteps hname,
    fun path value h ↦ exists_nested_of_lookup? h⟩
  rw [lookup?_join hsegments]
  cases event.get? (join separator (first :: rest)) <;> rfl

/-- The second of two items in a list, and a path with an empty segment. -/
theorem lookup_complete_exact_item :
    let event : Event := .ofList [("items", .array
      [.object [("sku", .string "A-1")], .object [("sku", .string "B-2")]])]
    event.lookup? '.' "items.1.sku" = some (.string "B-2") ∧
      event.lookup? '.' "items..sku" = none := by
  intro event
  have hobject : ∀ s, IsStorable (ofList [("sku", .string s)]).toValue :=
    fun s ↦ isStorable_ofList (List.forall_mem_singleton.mpr (.string s))
  have hitems : IsStorable (.array
      [.object [("sku", .string "A-1")], .object [("sku", .string "B-2")]]) :=
    .array (by decide) (by simpa using ⟨hobject "A-1", hobject "B-2"⟩)
  have hstorable : IsStorable event.toValue :=
    isStorable_ofList (List.forall_mem_singleton.mpr hitems)
  have hnested : Nested [.key "items", .index 1, .key "sku"] event.toValue (.string "B-2") :=
    .member List.mem_cons_self (.item rfl (.member List.mem_cons_self (.here _)))
  obtain ⟨hexact, -, hcomplete, -⟩ := lookup_complete_exact event '.'
  refine ⟨hcomplete _ _ hstorable (by simp) hnested (by decide) rfl, ?_⟩
  exact hexact "items" ["", "sku"] (by decide)

/-- The names alone do not suffice: the item at position 1 is not found where the separator is the
digit 1, although no name on the way contains it and the path is no name. -/
theorem index_hides_value :
    let event : Event := .ofList [("a", .array [.string "x", .string "y"])]
    let steps : List Step := [.key "a", .index 1]
    IsStorable event.toValue ∧ Nested steps event.toValue (.string "y") ∧
      (∀ name, Step.key name ∈ steps → '1' ∉ name.toList) ∧
      join '1' (steps.map Step.text) = "a11" ∧ event.get? "a11" = none ∧
      event.lookup? '1' "a11" = none := by
  intro event steps
  have hitems : IsStorable (.array [.string "x", .string "y"]) :=
    .array (by decide) (by simpa using ⟨.string "x", .string "y"⟩)
  have hstorable : IsStorable event.toValue :=
    isStorable_ofList (List.forall_mem_singleton.mpr hitems)
  have hnames : ∀ name, Step.key name ∈ steps → '1' ∉ name.toList := by
    intro name hname
    obtain rfl : name = "a" := by simpa [steps] using hname
    decide
  exact ⟨hstorable, .member List.mem_cons_self (.item rfl (.here _)), hnames, rfl, rfl, rfl⟩

end Event

end Segmentation
