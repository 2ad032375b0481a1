import Mathlib
import Segmentation.Command.Loading
import Segmentation.Proofs.Attempt
import Segmentation.Proofs.Configuration.Check
import Segmentation.Proofs.EventFile.Contents

/-!
# When files can be loaded

A file is `Unusable` if it cannot be read, or if its text does not hold what it is read for. Each
loader fails exactly on unusable files; a configuration is also refused by its check, and several
event files are loaded exactly if each of them is.
-/

set_option autoImplicit false

namespace Segmentation.Load

variable {files : FileReader} {path : String} {α ε : Type}

/-- The file cannot be used for what it is read for. -/
inductive Unusable (files : FileReader) (holds : String → Prop) (path : String) : Prop
  /-- It cannot be read as text. -/
  | unreadable {fault : ReadFault} (hread : files path = .error fault)
  /-- Its text does not hold what it should. -/
  | malformed {text : String} (hread : files path = .ok text) (hholds : ¬holds text)

/-- The text is a list of filters. -/
def HoldsFilters (text : String) : Prop := ∃ filters, Filter.readList text = .ok filters

/-- The text is a configuration, whether or not it can be used. -/
def HoldsConfiguration (text : String) : Prop :=
  ∃ configuration, Configuration.read text = some configuration

theorem not_unusable_iff {holds : String → Prop} :
    ¬Unusable files holds path ↔ ∃ text, files path = .ok text ∧ holds text := by
  constructor
  · intro h
    cases hread : files path with
    | error fault => exact absurd (.unreadable hread) h
    | ok text => exact ⟨text, rfl, not_not.mp fun hholds ↦ h (.malformed hread hholds)⟩
  · rintro ⟨text, htext, hholds⟩ (hread | ⟨hread, hnot⟩)
    · exact absurd (htext.symm.trans hread) (by simp)
    · obtain rfl := Except.ok.inj (htext.symm.trans hread)
      exact hnot hholds

/-! ### One file -/

theorem text_eq_ok_iff {role : FileRole} {content : String} :
    text files role path = .ok content ↔ files path = .ok content :=
  Json.mapError_eq_ok_iff

theorem events?_eq_ok_iff {events : List Event} : events? files path = .ok events ↔
    ∃ content, files path = .ok content ∧ EventFile.read content = .ok events := by
  simp only [events?, Json.bind_eq_ok, text_eq_ok_iff, Json.mapError_eq_ok_iff]

theorem filters?_eq_ok_iff {filters : List Filter} : filters? files path = .ok filters ↔
    ∃ content, files path = .ok content ∧ Filter.readList content = .ok filters := by
  simp only [filters?, Json.bind_eq_ok, text_eq_ok_iff, Json.mapError_eq_ok_iff]

theorem configuration?_eq_ok_iff {configuration : Configuration} :
    configuration? files path = .ok configuration ↔
      ∃ content, files path = .ok content ∧ Configuration.read content = some configuration := by
  simp only [configuration?, Json.bind_eq_ok, text_eq_ok_iff]
  refine exists_congr fun content ↦ and_congr_right fun _ ↦ ?_
  cases Configuration.read content <;> simp

/-! ### Loaders -/

theorem value_events (files : FileReader) (path : String) :
    (events files path).run.value = events? files path := by
  unfold events
  cases events? files path <;> rfl

theorem value_filters (files : FileReader) (path : String) :
    (filters files path).run.value = filters? files path := by
  unfold filters
  cases filters? files path <;> rfl

theorem exists_events_iff : (∃ loaded, (events files path).run.value = .ok loaded) ↔
    ¬Unusable files EventFile.HoldsEvents path := by
  simp only [value_events, events?_eq_ok_iff, not_unusable_iff, ← EventFile.exists_events_iff]
  rw [exists_comm]
  simp only [exists_and_left]

theorem exists_filters_iff : (∃ loaded, (filters files path).run.value = .ok loaded) ↔
    ¬Unusable files HoldsFilters path := by
  simp only [value_filters, filters?_eq_ok_iff, not_unusable_iff, HoldsFilters]
  rw [exists_comm]
  simp only [exists_and_left]

/-- A configuration is loaded if its file holds it and it can be used. -/
theorem value_configuration_eq_ok_iff {loaded : Configuration} :
    (configuration files path).run.value = .ok loaded ↔
      configuration? files path = .ok loaded ∧ loaded.check.value = .ok () := by
  constructor
  · intro h
    obtain ⟨read, hread, h⟩ := Attempt.value_bind_eq_ok_iff.mp h
    obtain ⟨verdict, hverdict, h⟩ := Attempt.value_bind_eq_ok_iff.mp h
    cases verdict with
    | error defect =>
      have hrefused : Except.error (Failure.invalidConfiguration path defect) = .ok loaded := h
      exact absurd hrefused (by simp)
    | ok =>
      obtain rfl : read = loaded := Except.ok.inj h
      exact ⟨hread, Except.ok.inj hverdict⟩
  · rintro ⟨hread, hcheck⟩
    refine Attempt.value_bind_eq_ok_iff.mpr ⟨loaded, hread, ?_⟩
    exact Attempt.value_bind_eq_ok_iff.mpr ⟨.ok (), congrArg Except.ok hcheck, rfl⟩

/-- Loading a configuration that could be read logs what its check does. -/
theorem run_configuration {loaded : Configuration}
    (hread : configuration? files path = .ok loaded) :
    (configuration files path).run = ⟨loaded.check.entries,
      (loaded.check.value.mapError (Failure.invalidConfiguration path)).map fun _ ↦ loaded⟩ := by
  have hloaded : (Attempt.ofExcept (configuration? files path)).run.value = .ok loaded := hread
  have hchecked : (Attempt.ofLogged loaded.check).run.value = .ok loaded.check.value := rfl
  rw [configuration, Attempt.run_bind_of_ok hloaded, Attempt.run_bind_of_ok hchecked]
  -- Only the check has logged anything.
  have hentries := List.append_nil loaded.check.entries
  cases hvalue : loaded.check.value <;> exact congrArg (Logged.mk · _) hentries

/-- Several files are loaded if each of them is. -/
theorem exists_allEvents_iff {paths : List String} :
    (∃ loaded, (allEvents files paths).run.value = .ok loaded) ↔
      ∀ path ∈ paths, ¬Unusable files EventFile.HoldsEvents path := by
  induction paths with
  | nil => exact ⟨fun _ _ hpath ↦ absurd hpath List.not_mem_nil, fun _ ↦ ⟨[], rfl⟩⟩
  | cons path rest ih =>
    rw [List.forall_mem_cons, ← ih, ← exists_events_iff]
    constructor
    · intro h
      obtain ⟨first, hfirst, h⟩ := Attempt.exists_value_bind_iff.mp h
      obtain ⟨others, hothers, -⟩ := Attempt.exists_value_bind_iff.mp h
      exact ⟨⟨first, hfirst⟩, others, hothers⟩
    · rintro ⟨⟨first, hfirst⟩, others, hothers⟩
      refine Attempt.exists_value_bind_iff.mpr ⟨first, hfirst, ?_⟩
      exact Attempt.exists_value_bind_iff.mpr ⟨others, hothers, _, rfl⟩

end Segmentation.Load
