import Mathlib
import Segmentation.Proofs.EventFile.Lines

/-!
# The encodings of an event file agree

The same events can be stored as a list in square brackets or on lines of their own, and are read
alike (`encodings_agree`). A file of lines is taken for none of the other formats: it does not start
with a bracket, and if all of it is one document, then it holds only one text (`read_first`).
-/

set_option autoImplicit false

namespace Segmentation.EventFile

open Text
open Json (skipSpace)

/-! ### Lists -/

/-- The file that lists the texts, in square brackets and with commas between them. -/
def arrayText (texts : List String) : String := "[" ++ String.intercalate "," texts ++ "]"

theorem toList_arrayText (texts : List String) : (arrayText texts).toList =
    '[' :: (List.intercalate [','] (texts.map String.toList) ++ [']']) := by
  simp [arrayText, String.toList_intercalate]

/-- Documents that are events are the events of a list. -/
theorem eventsOfItems_map {ι : Type} (entries : List ι) (document : ι → Json) (event : ι → Event)
    (h : ∀ entry ∈ entries, Event.ofJson (document entry) = .ok (event entry)) (start : ℕ) :
    eventsOfItems start (entries.map document) = .ok (entries.map event) := by
  induction entries generalizing start with
  | nil => rfl
  | cons entry entries ih =>
    have hmore := ih (fun other hother ↦ h other (List.mem_cons_of_mem _ hother)) (start + 1)
    rw [List.map_cons, eventsOfItems, h entry List.mem_cons_self]
    exact Json.bind_eq_ok.mpr ⟨event entry, rfl, Json.bind_eq_ok.mpr ⟨_, hmore, rfl⟩⟩

variable {entries : List (String × Event)}

/-- The documents of a file that lists the texts of some events are these events. -/
theorem exists_readDocuments (hread : ∀ entry ∈ entries, Event.read entry.1 = .ok entry.2)
    (hnesting : ∀ entry ∈ entries, Json.nesting entry.1.toList < Json.maxDepth) :
    ∃ document : String × Event → Json,
      readDocuments (arrayText (entries.map Prod.fst)) = .ok (entries.map document) ∧
        ∀ entry ∈ entries, Event.ofJson (document entry) = .ok entry.2 := by
  have htext := toList_arrayText (entries.map Prod.fst)
  obtain ⟨hcount, hlength⟩ := Json.length_le_intercalate ((entries.map Prod.fst).map String.toList)
  generalize hlimit : (arrayText (entries.map Prod.fst)).toList.length + 1 = limit
  rw [htext, List.length_cons, List.length_append, List.length_singleton] at hlimit
  rw [List.length_map, List.length_map] at hcount
  have hitem : ∀ entry ∈ entries, ∃ document, Event.ofJson document = .ok entry.2 ∧
      Json.IsItem (Json.value limit (Json.maxDepth - 1)) entry.1.toList document := by
    intro entry hentry
    have hlong := hlength _ (List.mem_map_of_mem (List.mem_map_of_mem hentry))
    exact Event.exists_isItem (hread entry hentry) (by omega)
      (Nat.le_sub_one_of_lt (hnesting entry hentry))
  have : Nonempty Json := ⟨.null⟩
  choose! document hdocument hitem using hitem
  have hblank : Json.skipSpace [] = [] := rfl
  have hitems := Json.items_intercalate (fun entry ↦ entry.1.toList) document entries hitem
    (show entries.length < limit by omega) hblank []
  refine ⟨document, ?_, hdocument⟩
  rw [readDocuments, Json.readWith_eq_ok_iff, htext, List.length_cons, List.length_append,
    List.length_singleton, hlimit, List.map_map]
  exact ⟨[], hitems, rfl⟩

/-- A file that lists the texts of some events is read as these events. -/
theorem read_arrayText (hread : ∀ entry ∈ entries, Event.read entry.1 = .ok entry.2)
    (hnesting : ∀ entry ∈ entries, Json.nesting entry.1.toList < Json.maxDepth) :
    read (arrayText (entries.map Prod.fst)) = .ok (entries.map Prod.snd) := by
  obtain ⟨document, hdocuments, hevents⟩ := exists_readDocuments hread hnesting
  have hbracket : isBlank '[' = false := rfl
  have htrim := @trimStart_append [] rfl '[' hbracket
  rw [read, toList_arrayText, ← List.nil_append ('[' :: _), htrim]
  simp only [if_true, hdocuments]
  exact eventsOfItems_map entries document Prod.snd hevents 0

/-! ### Lines -/

/-- A file with an event on a line starts with the event, blanks of any kind apart. If all of it is
one document, then the document is this event, and no other event follows. -/
theorem OnLines.read_first {text : String} {event : Event} {texts : List String} {file : String}
    (h : OnLines (text :: texts) file.toList) (hread : Event.read text = .ok event) :
    (∃ tail, trimStart file.toList = '\x7b' :: tail) ∧
      ∀ document, Json.read file = .ok document → Event.ofJson document = .ok event ∧
        ∀ other ∈ texts, skipSpace other.toList = [] := by
  obtain ⟨before, after, hfile, hbefore, hafter, hothers⟩ := h.exists_first
  obtain ⟨lead, body, trail, levels, htext, hlead, htrail, hlevels, hbody⟩ :=
    Event.exists_body hread
  obtain ⟨tail, hbrace⟩ := hbody.brace
  have hblank : isBlankText (before ++ lead) = true :=
    isBlankText_append.mpr ⟨hbefore, Json.isBlankText_of_skipSpace hlead⟩
  have htrim : trimStart file.toList = body ++ (trail ++ after) := by
    have hsplit : file.toList = (before ++ lead) ++ (body ++ (trail ++ after)) := by
      rw [hfile, htext]
      simp
    have hspace : isBlank '\x7b' = false := rfl
    rw [hsplit, hbrace, List.cons_append, trimStart_append hblank hspace]
  refine ⟨⟨tail ++ (trail ++ after), by rw [htrim, hbrace, List.cons_append]⟩, ?_⟩
  intro document hdocument
  obtain ⟨found, hfound, hbodyRead⟩ := hbody.read
  obtain ⟨rest, hvalue, hrest⟩ := Json.readWith_eq_ok_iff.mp hdocument
  have hlimit : body.length < file.toList.length + 1 := by
    rw [hfile, htext]
    simp only [List.length_append]
    omega
  have hagain := hbodyRead _ Json.maxDepth (trail ++ after) hlimit hlevels
    (Json.separated_blanks htrail hafter)
  -- the whole document is the first body, so what follows the body is what the document leaves
  rw [← htrim, Json.trimStart_of_value hvalue, Json.value_skipSpace, hvalue] at hagain
  obtain ⟨rfl, rfl⟩ := Prod.mk.inj (Except.ok.inj hagain)
  refine ⟨hfound, fun other hother ↦ Json.skipSpace_eq_nil_iff.mpr fun c hc ↦ ?_⟩
  exact Json.skipSpace_eq_nil_iff.mp hrest c (List.mem_append_right _ (hothers other hother c hc))

/-- A text of blanks only holds no event. -/
theorem skipSpace_ne_nil_of_read {text : String} {event : Event}
    (h : Event.read text = .ok event) : skipSpace text.toList ≠ [] := by
  intro hskip
  have hblank := Json.isBlankText_of_skipSpace hskip
  rw [not_isBlankText_of_read h] at hblank
  exact absurd hblank Bool.false_ne_true

/-- A file with the texts of some events on its lines is read as these events. -/
theorem read_of_onLines (hline : ∀ entry ∈ entries, '\n' ∉ entry.1.toList)
    (hread : ∀ entry ∈ entries, Event.read entry.1 = .ok entry.2) {file : String}
    (h : OnLines (entries.map Prod.fst) file.toList) :
    read file = .ok (entries.map Prod.snd) := by
  have hlines := eventsOfLines_of_onLines hline hread h 1
  cases entries with
  | nil =>
    have hblank : trimStart file.toList = [] := List.dropWhile_eq_nil_iff.mpr fun c hc ↦
      List.all_eq_true.mp (isBlankText_of_onLines h) c hc
    rw [read, hblank]
    rfl
  | cons entry others =>
    obtain ⟨⟨tail, htrim⟩, hsingle⟩ := h.read_first (hread entry List.mem_cons_self)
    rw [read, htrim]
    simp only [if_neg (show ('\x7b' : Char) ≠ '[' by decide)]
    cases hdocument : Json.read file with
    | error error => exact hlines
    | ok document =>
      obtain ⟨hevent, hblank⟩ := hsingle document hdocument
      have hothers : others = [] := by
        cases others with
        | nil => rfl
        | cons other more =>
          have hskip := hblank other.1 (List.mem_map_of_mem List.mem_cons_self)
          exact absurd hskip (skipSpace_ne_nil_of_read
            (hread other (List.mem_cons_of_mem _ List.mem_cons_self)))
      simp only [hevent, hothers]
      rfl

/-! ### Agreement -/

/-- The encodings of an event file agree: texts without a line feed, each of which is read as an
event and opens at least one bracket less at once than a document may, are read as these events in
their order both from the file that lists them and from every file that holds them on its lines. -/
theorem encodings_agree (entries : List (String × Event))
    (hline : ∀ entry ∈ entries, '\n' ∉ entry.1.toList)
    (hread : ∀ entry ∈ entries, Event.read entry.1 = .ok entry.2)
    (hnesting : ∀ entry ∈ entries, Json.nesting entry.1.toList < Json.maxDepth) :
    read (arrayText (entries.map Prod.fst)) = .ok (entries.map Prod.snd) ∧
      ∀ file : String, OnLines (entries.map Prod.fst) file.toList →
        read file = .ok (entries.map Prod.snd) :=
  ⟨read_arrayText hread hnesting, fun _ h ↦ read_of_onLines hline hread h⟩

/-- A list in an object, and a text that ends with a carriage return. In the file of lines a line
with a no-break space and an empty line stand before and between them. -/
theorem encodings_agree_two : ∃ first second : Event,
    Event.read "\x7b\"a\":[1,null]\x7d" = .ok first ∧
      Event.read " \x7b\"a\":true\x7d\r" = .ok second ∧
      read "[\x7b\"a\":[1,null]\x7d, \x7b\"a\":true\x7d\r]" = .ok [first, second] ∧
      read "\u00a0\r\n\x7b\"a\":[1,null]\x7d\n\n \x7b\"a\":true\x7d\r\n" = .ok [first, second] := by
  have hfirst : (Event.read "\x7b\"a\":[1,null]\x7d").toOption.any (fun _ ↦ true) = true := by
    decide +kernel
  have hsecond : (Event.read " \x7b\"a\":true\x7d\r").toOption.any (fun _ ↦ true) = true := by
    decide +kernel
  obtain ⟨first, hfirst, -⟩ := Json.any_toOption.mp hfirst
  obtain ⟨second, hsecond, -⟩ := Json.any_toOption.mp hsecond
  have hnesting : ∀ text ∈ ["\x7b\"a\":[1,null]\x7d", " \x7b\"a\":true\x7d\r"],
      Json.nesting text.toList < Json.maxDepth := by
    decide +kernel
  obtain ⟨harray, hlines⟩ := encodings_agree
    [("\x7b\"a\":[1,null]\x7d", first), (" \x7b\"a\":true\x7d\r", second)]
    (by simp) (by simp [hfirst, hsecond]) (by simpa using hnesting)
  refine ⟨first, second, hfirst, hsecond, harray, hlines _ ?_⟩
  have hfile : "\u00a0\r\n\x7b\"a\":[1,null]\x7d\n\n \x7b\"a\":true\x7d\r\n".toList =
      ['\u00a0'] ++ (['\r', '\n'] ++ ("\x7b\"a\":[1,null]\x7d".toList ++ (['\n'] ++ ([] ++
        (['\n'] ++ (" \x7b\"a\":true\x7d\r".toList ++ (['\n'] ++ []))))))) := by
    simp
  rw [hfile]
  refine .blank (by decide) (by decide) .returnFeed (.text _ .feed ?_)
  exact .blank rfl List.not_mem_nil .feed (.text _ .feed (.lastBlank rfl List.not_mem_nil))

end Segmentation.EventFile
