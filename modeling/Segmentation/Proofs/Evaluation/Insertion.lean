import Mathlib
import Segmentation.Proofs.Evaluation.Resolution

/-!
# Setting one property

A property is reached by its own name, and through its name by the paths that start with it. No
other name can tell whether the property was set (`lookup?_insert_of_ne`), whatever it hides or
makes reachable. So setting a property changes an evaluation, its verdict and its log only through
filters on the property itself or on paths that start with it (`insert_touches_own_filters`). The
name itself leads to the new value in every way of looking it up, even where it could be read as a
path.
-/

set_option autoImplicit false

namespace Segmentation

namespace Event

/-! ### Paths that start with a name -/

/-- The path starts with the name: the name is the part before its first separator. -/
def StartsAt (separator : Char) (name path : String) : Prop :=
  separator ∉ name.toList ∧ ∃ rest, path.toList = name.toList ++ separator :: rest

/-- The first segment is the whole path, or the path starts with it. -/
theorem eq_or_startsAt_of_segments {separator : Char} {path first : String} {rest : List String}
    (h : segments separator path = first :: rest) :
    first = path ∨ StartsAt separator first path := by
  obtain ⟨piece, pieces, hsplit, rfl, -⟩ := List.map_eq_cons_iff.mp h
  have hpiece : separator ∉ piece :=
    Text.not_mem_of_mem_splitAt (hsplit ▸ List.mem_cons_self)
  have htext := Text.intercalate_splitAt separator path.toList
  rw [hsplit] at htext
  cases pieces with
  | nil =>
    rw [List.intercalate_singleton] at htext
    exact Or.inl (by rw [htext, String.ofList_toList])
  | cons second others =>
    rw [List.intercalate_cons_cons, List.append_assoc, List.singleton_append] at htext
    refine Or.inr ⟨by rwa [String.toList_ofList],
      List.intercalate [separator] (second :: others), ?_⟩
    rw [String.toList_ofList, htext]

variable {event : Event} {separator : Char} {name path : String}

/-- A path that is another name and does not start with the property leads where it led before. -/
theorem lookup?_insert_of_ne (hne : path ≠ name) (hstart : ¬StartsAt separator name path)
    (value : Value) :
    (event.insert name value).lookup? separator path = event.lookup? separator path := by
  unfold lookup?
  rw [get?_insert_of_ne hne]
  cases event.get? path with
  | some found => rfl
  | none =>
    cases hsegments : segments separator path with
    | nil => rfl
    | cons first rest =>
      have hfirst : first ≠ name := by
        rintro rfl
        exact (eq_or_startsAt_of_segments hsegments).elim (fun heq ↦ hne heq.symm) hstart
      simp only [get?_insert_of_ne hfirst]

/-- The name of the property leads to it, also where it could be read as a path. -/
theorem lookup?_insert_self (event : Event) (separator : Char) (name : String) (value : Value) :
    (event.insert name value).lookup? separator name = some value := by
  rw [lookup?, get?_insert_self]

/-- An event grows by one exactly if the property is new, and else keeps its size. -/
theorem size_insert_eq_iff (event : Event) (name : String) (value : Value) :
    ((event.insert name value).size = event.size + 1 ↔ event.get? name = none) ∧
      ((event.insert name value).size = event.size ↔ event.get? name ≠ none) := by
  rw [size_insert]
  cases event.get? name <;> simp

end Event

namespace Settings

variable (settings : Settings) (event : Event)

/-- The filter asks for the property: by its name, or by a path that starts with it. -/
def AsksFor (name : String) (filter : Filter) : Prop :=
  filter.propertyName = name ∨
    settings.nestedPaths = true ∧
      Event.StartsAt settings.pathSeparator name filter.propertyName

/-- A filter that does not ask for the property is treated as before. -/
theorem alikeOn_insert {name : String} {filter : Filter} (h : ¬settings.AsksFor name filter)
    (value : Value) : AlikeOn settings (event.insert name value) settings event filter := by
  obtain ⟨hne, hstart⟩ := not_or.mp h
  refine alikeOn_of_resolve rfl ?_
  unfold resolve
  by_cases hpaths : settings.nestedPaths = true
  · rw [if_pos hpaths, if_pos hpaths,
      Event.lookup?_insert_of_ne hne fun hstarts ↦ hstart ⟨hpaths, hstarts⟩]
  · rw [if_neg hpaths, if_neg hpaths, Event.get?_insert_of_ne hne]

/-- Setting a property leaves every evaluation as it was, with its verdict and its log, if no filter
is on the property or, where names can be paths, on a path that starts with it. Every lookup of the
name gives the new value, the value before is handed out, and the event grows by one exactly if
there was none. -/
theorem insert_touches_own_filters (name : String) (value : Value) :
    let previous := (event.exchange name value).1
    let after := (event.exchange name value).2
    (∀ filters : Option (List Filter),
      (∀ filter ∈ filters.getD [], filter.propertyName ≠ name ∧
        (settings.nestedPaths = true →
          ¬Event.StartsAt settings.pathSeparator name filter.propertyName)) →
      settings.evaluate after filters = settings.evaluate event filters ∧
        settings.judge after filters = settings.judge event filters) ∧
      after.get? name = some value ∧ (∀ separator, after.lookup? separator name = some value) ∧
      previous = event.get? name ∧
      (after.size = event.size + 1 ↔ previous = none) ∧
      (after.size = event.size ↔ previous ≠ none) := by
  intro previous after
  have hexchange := event.exchange_eq name value
  have hprevious : previous = event.get? name := congrArg Prod.fst hexchange
  have hafter : after = event.insert name value := congrArg Prod.snd hexchange
  rw [hprevious, hafter]
  refine ⟨fun filters hfilters ↦ ?_, event.get?_insert_self name value,
    fun separator ↦ event.lookup?_insert_self separator name value, rfl,
    event.size_insert_eq_iff name value⟩
  have halike : ∀ filter ∈ filters.getD [],
      AlikeOn settings (event.insert name value) settings event filter := by
    intro filter hfilter
    obtain ⟨hne, hstart⟩ := hfilters filter hfilter
    exact settings.alikeOn_insert event (not_or.mpr ⟨hne, not_and.mpr hstart⟩) value
  exact ⟨evaluate_congr halike, judge_congr halike⟩

/-- The name of the new property is also a path, and hides what the path leads to. Filters on the
start of the path and on longer paths are not touched. -/
theorem insert_touches_own_filters_hidden :
    let event := Event.ofList [("a", .object [("b", .object [("c", .string "x")])])]
    let filters := some [Filter.ofTexts "a.b.c" "is" "x", Filter.ofTexts "a" "is not empty" ""]
    let after := (event.exchange "a.b" (.string "y")).2
    (∀ filter ∈ filters.getD [], filter.propertyName ≠ "a.b" ∧
        ¬Event.StartsAt '.' "a.b" filter.propertyName) ∧
      (default : Settings).evaluate after filters =
        (default : Settings).evaluate event filters ∧
      event.lookup? '.' "a.b" = some (.object [("c", .string "x")]) ∧
      after.lookup? '.' "a.b" = some (.string "y") ∧ after.size = event.size + 1 := by
  intro event filters after
  have hfilters : ∀ filter ∈ filters.getD [], filter.propertyName ≠ "a.b" ∧
      ¬Event.StartsAt '.' "a.b" filter.propertyName := by
    intro filter hfilter
    have hname : filter.propertyName ≠ "a.b" := by
      revert filter
      decide
    exact ⟨hname, fun hstarts ↦ hstarts.1 (by decide)⟩
  obtain ⟨hframe, -, hlookup, -, hsize, -⟩ :=
    (default : Settings).insert_touches_own_filters event "a.b" (.string "y")
  refine ⟨hfilters, ?_, by rfl, hlookup '.', hsize.mpr (by rfl)⟩
  exact (hframe filters fun filter hfilter ↦
    ⟨(hfilters filter hfilter).1, fun _ ↦ (hfilters filter hfilter).2⟩).1

end Settings

end Segmentation
