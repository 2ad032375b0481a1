import Mathlib
import Segmentation.EventFile
import Segmentation.Proofs.Event.Body

/-!
# What a file of events holds

`HoldsEvents` says of the text of a file, in terms of JSON documents and lines only, that it holds
events: it is a list of objects, it is one object, or it is no document at all and every line that
is not blank is an object. The reader tells the first form from the others by one character, the
second from the third by trying; `exists_events_iff` shows that it succeeds exactly on these texts.
-/

set_option autoImplicit false

namespace Segmentation.Text

variable {c : Char} {text line : List Char}

/-! ### The characters of lines -/

theorem consFirst_eq (c : Char) (pieces : List (List Char)) :
    consFirst c pieces = (c :: pieces.headD []) :: pieces.tail := by
  cases pieces <;> rfl

theorem lines_other {rest : List Char} (hfeed : c ≠ '\n')
    (hreturn : ∀ more, c = '\r' → rest = '\n' :: more → False) :
    lines (c :: rest) = consFirst c (lines rest) := by
  rw [lines]
  · exact hfeed
  · exact hreturn

theorem mem_of_mem_lines (hline : line ∈ lines text) (hc : c ∈ line) : c ∈ text := by
  induction text using lines.induct generalizing line with
  | case1 => exact absurd hline List.not_mem_nil
  | case2 rest ih =>
    rw [lines] at hline
    rcases List.mem_cons.mp hline with rfl | hline
    · exact absurd hc List.not_mem_nil
    · exact List.mem_cons_of_mem _ (ih hline hc)
  | case3 rest ih =>
    rw [lines] at hline
    rcases List.mem_cons.mp hline with rfl | hline
    · exact absurd hc List.not_mem_nil
    · exact List.mem_cons_of_mem _ (List.mem_cons_of_mem _ (ih hline hc))
  | case4 d rest hfeed hreturn ih =>
    rw [lines_other hfeed hreturn, consFirst_eq] at hline
    rcases List.mem_cons.mp hline with rfl | hline
    · rcases List.mem_cons.mp hc with rfl | hc
      · exact List.mem_cons_self
      · cases hlines : lines rest with
        | nil => exact absurd hc (by simp [hlines])
        | cons first others =>
          rw [hlines, List.headD_cons] at hc
          exact List.mem_cons_of_mem _ (ih (hlines ▸ List.mem_cons_self) hc)
    · exact List.mem_cons_of_mem _ (ih (List.mem_of_mem_tail hline) hc)

/-- A text that is blank has blank lines only. -/
theorem isBlankText_of_mem_lines (h : trimStart text = []) (hline : line ∈ lines text) :
    isBlankText line = true :=
  List.all_eq_true.mpr fun _ hc ↦ List.dropWhile_eq_nil_iff.mp h _ (mem_of_mem_lines hline hc)

theorem trimStart_cons_blank (hc : isBlank c = true) (rest : List Char) :
    trimStart (c :: rest) = trimStart rest := List.dropWhile_cons_of_pos hc

/-- A text starts, white space apart, like one of its lines. -/
theorem exists_line_trimStart {rest : List Char} (h : trimStart text = c :: rest) :
    ∃ line ∈ lines text, ∃ tail, trimStart line = c :: tail := by
  induction text using lines.induct with
  | case1 => exact absurd h (by simp [trimStart])
  | case2 more ih =>
    rw [trimStart_cons_blank rfl] at h
    obtain ⟨line, hline, hstart⟩ := ih h
    exact ⟨line, by rw [lines]; exact List.mem_cons_of_mem _ hline, hstart⟩
  | case3 more ih =>
    rw [trimStart_cons_blank rfl, trimStart_cons_blank rfl] at h
    obtain ⟨line, hline, hstart⟩ := ih h
    exact ⟨line, by rw [lines]; exact List.mem_cons_of_mem _ hline, hstart⟩
  | case4 d more hfeed hreturn ih =>
    rw [lines_other hfeed hreturn, consFirst_eq]
    -- The character joins the first of the other lines, which may be the one that is looked for.
    by_cases hd : isBlank d = true
    · rw [trimStart_cons_blank hd] at h
      obtain ⟨line, hline, tail, hstart⟩ := ih h
      cases hlines : lines more with
      | nil => exact absurd hline (by simp [hlines])
      | cons first others =>
        rw [hlines] at hline
        rcases List.mem_cons.mp hline with rfl | hline
        · exact ⟨_, List.mem_cons_self, tail, (trimStart_cons_blank hd _).trans hstart⟩
        · exact ⟨line, List.mem_cons_of_mem _ hline, tail, hstart⟩
    · have hstart : ∀ tail, trimStart (d :: tail) = d :: tail := fun tail ↦
        List.dropWhile_cons_of_neg hd
      rw [hstart] at h
      obtain ⟨rfl, -⟩ := List.cons.inj h
      exact ⟨_, List.mem_cons_self, _, hstart _⟩

end Segmentation.Text

namespace Segmentation.Json

open Text

/-- The document is an object. -/
def IsObject (document : Json) : Prop := ∃ members, document = .object members

/-- The document is a list. -/
def IsArray (document : Json) : Prop := ∃ items, document = .array items

/-- The whole text is one object. -/
def HoldsObject (text : String) : Prop := ∃ document, read text = .ok document ∧ document.IsObject

/-- What a document is shows at its first character, and no white space of another kind than that of
JSON stands before it. -/
theorem exists_start_of_read {text : String} {document : Json} (h : read text = .ok document) :
    ∃ c tail, trimStart text.toList = c :: tail ∧ (c = '[' ↔ document.IsArray) := by
  obtain ⟨rest, hvalue, -⟩ := readWith_eq_ok_iff.mp h
  rw [trimStart_of_value hvalue]
  obtain ⟨inner, hreading⟩ := reading_of_value hvalue
  cases hreading with
  | array hinner hskip => exact ⟨_, _, hskip, by simp [IsArray]⟩
  | number hskip hc =>
    have hne := ne_of_numberStart hc '[' (by decide)
    exact ⟨_, _, hskip, by simp [IsArray, hne]⟩
  | string hskip | object _ hskip | null hskip | true hskip | false hskip =>
    exact ⟨_, _, hskip, by simp [IsArray]⟩

end Segmentation.Json

namespace Segmentation.Event

variable {text : String} {document : Json}

/-! ### Texts that are events -/

theorem exists_ofJson_iff : (∃ event, ofJson document = .ok event) ↔ document.IsObject := by
  constructor
  · rintro ⟨event, hevent⟩
    obtain ⟨members, rfl, -⟩ := ofJson_eq_ok_iff.mp hevent
    exact ⟨members, rfl⟩
  · rintro ⟨members, rfl⟩
    exact ⟨_, ofJson_eq_ok_iff.mpr ⟨members, rfl, rfl⟩⟩

theorem exists_read_iff : (∃ event, read text = .ok event) ↔ Json.HoldsObject text := by
  constructor
  · rintro ⟨event, hevent⟩
    obtain ⟨document, hread, hdocument⟩ := read_eq_ok_iff.mp hevent
    exact ⟨document, hread, exists_ofJson_iff.mp ⟨event, hdocument⟩⟩
  · rintro ⟨document, hread, hobject⟩
    obtain ⟨event, hevent⟩ := exists_ofJson_iff.mpr hobject
    exact ⟨event, read_eq_ok_iff.mpr ⟨document, hread, hevent⟩⟩

end Segmentation.Event

namespace Segmentation.EventFile

open Text

variable {text : String} {document : Json}

/-! ### Entries that are events -/

theorem exists_cons_iff {α ε : Type} {first : Except ε α} {others : Except ε (List α)} :
    (∃ all, (do let a ← first; .ok (a :: (← others))) = Except.ok all) ↔
      (∃ a, first = .ok a) ∧ ∃ more, others = .ok more := by
  cases first <;> cases others <;> simp [bind, Except.bind]

/-- A list gives events exactly if all its documents are objects. -/
theorem exists_eventsOfItems_iff (start : ℕ) (documents : List Json) :
    (∃ events, eventsOfItems start documents = .ok events) ↔
      ∀ document ∈ documents, document.IsObject := by
  induction documents generalizing start with
  | nil => simp [eventsOfItems]
  | cons document rest ih =>
    simp only [eventsOfItems, exists_cons_iff, Json.mapError_eq_ok_iff,
      Event.exists_ofJson_iff, ih, List.forall_mem_cons]

/-- Lines give events exactly if all of them that are not blank are objects. -/
theorem exists_eventsOfLines_iff (start : ℕ) (lines : List (List Char)) :
    (∃ events, eventsOfLines start lines = .ok events) ↔
      ∀ line ∈ lines, isBlankText line = false → Json.HoldsObject (String.ofList line) := by
  induction lines generalizing start with
  | nil => simp [eventsOfLines]
  | cons line rest ih =>
    rw [eventsOfLines, List.forall_mem_cons]
    cases hblank : isBlankText line with
    | true => simp [ih]
    | false =>
      simp only [Bool.false_eq_true, if_false, exists_cons_iff, Json.mapError_eq_ok_iff,
        Event.exists_read_iff, ih, forall_const]

/-! ### Files that hold events -/

/-- The text of a file holds events. -/
inductive HoldsEvents (text : String) : Prop
  /-- It is a list of objects. -/
  | list {documents : List Json} (hread : Json.read text = .ok (.array documents))
    (hobjects : ∀ document ∈ documents, document.IsObject)
  /-- It is one object. -/
  | single (hobject : Json.HoldsObject text)
  /-- It is no document, and each of its lines is an object or blank. -/
  | lines (hread : ∀ document, Json.read text ≠ .ok document)
    (hlines : ∀ line ∈ lines text.toList, isBlankText line = false →
      Json.HoldsObject (String.ofList line))

/-- A text that starts with a square bracket has a line that is no object. -/
theorem not_forall_lines_of_bracket {rest : List Char} (h : trimStart text.toList = '[' :: rest) :
    ¬∀ line ∈ lines text.toList, isBlankText line = false →
      Json.HoldsObject (String.ofList line) := by
  intro hlines
  obtain ⟨line, hline, tail, hstart⟩ := exists_line_trimStart h
  have hblank : isBlankText line = false := by
    refine Bool.eq_false_of_not_eq_true fun hall ↦ ?_
    have hnil : trimStart line = [] :=
      List.dropWhile_eq_nil_iff.mpr (List.all_eq_true.mp hall)
    exact absurd (hstart.symm.trans hnil) (by simp)
  obtain ⟨document, hread, members, rfl⟩ := hlines line hline hblank
  obtain ⟨c, tail', hc, hbracket⟩ := Json.exists_start_of_read hread
  rw [String.toList_ofList, hstart] at hc
  obtain ⟨items, hitems⟩ := hbracket.mp (List.cons.inj hc).1.symm
  exact absurd hitems (by simp)

theorem read_of_blank (h : trimStart text.toList = []) : read text = .ok [] := by
  rw [read, h]

theorem exists_read_of_bracket {rest : List Char} (h : trimStart text.toList = '[' :: rest) :
    (∃ events, read text = .ok events) ↔ ∃ documents,
      Json.read text = .ok (.array documents) ∧ ∀ document ∈ documents, document.IsObject := by
  rw [read, h]
  simp only [if_true, ← Json.readWith_listOf_eq_ok_iff]
  show _ ↔ ∃ documents, readDocuments text = .ok documents ∧ _
  cases readDocuments text with
  | error error => simp
  | ok documents => simp [exists_eventsOfItems_iff]

theorem exists_read_of_other {c : Char} {rest : List Char}
    (h : trimStart text.toList = c :: rest) (hc : c ≠ '[') :
    (∃ events, read text = .ok events) ↔
      Json.HoldsObject text ∨
      (∀ document, Json.read text ≠ .ok document) ∧
        ∀ line ∈ lines text.toList, isBlankText line = false →
          Json.HoldsObject (String.ofList line) := by
  rw [read, h]
  simp only [if_neg hc]
  cases hread : Json.read text with
  | error error => simp [Json.HoldsObject, hread, exists_eventsOfLines_iff]
  | ok document =>
    simp only [Json.HoldsObject, hread]
    cases hevent : Event.ofJson document <;> simp [← Event.exists_ofJson_iff, hevent]

/-- A file gives events exactly if its text holds events. -/
theorem exists_events_iff (text : String) :
    (∃ events, read text = .ok events) ↔ HoldsEvents text := by
  have hkind : ∀ {document c rest}, trimStart text.toList = c :: rest →
      Json.read text = .ok document → (c = '[' ↔ document.IsArray) := by
    intro document c rest hstart hread
    obtain ⟨d, tail, hstart', hd⟩ := Json.exists_start_of_read hread
    rw [hstart] at hstart'
    rwa [(List.cons.inj hstart').1]
  cases hstart : trimStart text.toList with
  | nil =>
    refine ⟨fun _ ↦ .lines (fun document hread ↦ ?_) fun line hline hblank ↦ ?_, fun _ ↦
      ⟨[], read_of_blank hstart⟩⟩
    · obtain ⟨c, tail, hc, -⟩ := Json.exists_start_of_read hread
      exact absurd (hstart.symm.trans hc) (by simp)
    · exact absurd (isBlankText_of_mem_lines hstart hline) (by simp [hblank])
  | cons c rest =>
    by_cases hc : c = '['
    · subst hc
      rw [exists_read_of_bracket hstart]
      constructor
      · rintro ⟨documents, hread, hobjects⟩
        exact .list hread hobjects
      · rintro (⟨hread, hobjects⟩ | ⟨document, hread, members, rfl⟩ | ⟨-, hlines⟩)
        · exact ⟨_, hread, hobjects⟩
        · obtain ⟨items, hitems⟩ := (hkind hstart hread).mp rfl
          exact absurd hitems (by simp)
        · exact absurd hlines (not_forall_lines_of_bracket hstart)
    · rw [exists_read_of_other hstart hc]
      constructor
      · rintro (hobject | ⟨hread, hlines⟩)
        · exact .single hobject
        · exact .lines hread hlines
      · rintro (⟨hread, -⟩ | hobject | ⟨hread, hlines⟩)
        · exact absurd ((hkind hstart hread).mpr ⟨_, rfl⟩) hc
        · exact Or.inl hobject
        · exact Or.inr ⟨hread, hlines⟩

end Segmentation.EventFile
