import Mathlib
import Segmentation.Proofs.EventFile.Contents
import Segmentation.Proofs.EventFile.Lines

/-!
# Where a file of events is refused

The items of a list and the lines of a text are read in one way: entry by entry, each with its
number, until one is refused (`readEntries`). Entries that are passed over count all the same. So
either all entries that matter are events, and these are the result in their order, or the refusal
names the first of them that is none (`readEntries_cases`). `IsLineAt` says without cutting the text
what its line at a number is, which is what the number in a refusal stands for.
-/

set_option autoImplicit false

/-! ### The lines of a text by number -/

namespace Segmentation.Text

variable {line text : List Char}

/-- The line stands in the text, whole and without its end, behind this many line feeds. -/
inductive IsLineAt (line : List Char) : ℕ → List Char → Prop
  | last (hfeed : '\n' ∉ line) : IsLineAt line 0 line
  | ended {ending : List Char} (hfeed : '\n' ∉ line) (hending : LineEnd ending)
      (rest : List Char) : IsLineAt line 0 (line ++ (ending ++ rest))
  | behind {front rest : List Char} {number : ℕ} (hfront : '\n' ∉ front)
      (h : IsLineAt line number rest) : IsLineAt line (number + 1) (front ++ '\n' :: rest)

theorem lines_ne_nil (h : text ≠ []) : lines text ≠ [] := by
  induction text using lines.induct with
  | case1 => exact absurd rfl h
  | case2 rest _ => exact lines.eq_2 rest ▸ List.cons_ne_nil _ _
  | case3 rest _ => exact lines.eq_3 rest ▸ List.cons_ne_nil _ _
  | case4 c rest hfeed hreturn _ =>
    rw [lines_other hfeed hreturn]
    exact consFirst_ne_nil c _

/-- A further character stands at the start of the first line. -/
theorem IsLineAt.cons_zero {c : Char} (hc : c ≠ '\n') (h : IsLineAt line 0 text) :
    IsLineAt (c :: line) 0 (c :: text) := by
  have hcons : '\n' ∉ line → '\n' ∉ c :: line := fun hfeed ↦ List.not_mem_cons_of_ne_of_not_mem
    hc.symm hfeed
  cases h with
  | last hfeed => exact .last (hcons hfeed)
  | ended hfeed hending rest => exact .ended (hcons hfeed) hending rest

/-- A further character leaves the other lines where they are. -/
theorem IsLineAt.cons_succ {c : Char} (hc : c ≠ '\n') {number : ℕ}
    (h : IsLineAt line (number + 1) text) : IsLineAt line (number + 1) (c :: text) := by
  cases h with
  | behind hfront h =>
    exact .behind (List.not_mem_cons_of_ne_of_not_mem hc.symm hfront) h

/-- The lines of a text are numbered by the line feeds before them. -/
theorem isLineAt_of_getElem? {number : ℕ} (h : (lines text)[number]? = some line) :
    IsLineAt line number text := by
  induction text using lines.induct generalizing number line with
  | case1 => exact absurd h (by simp [lines])
  | case2 rest ih =>
    rw [lines] at h
    cases number with
    | zero =>
      obtain rfl : [] = line := Option.some.inj h
      exact .ended List.not_mem_nil .feed rest
    | succ number => exact @IsLineAt.behind _ [] rest number List.not_mem_nil (ih h)
  | case3 rest ih =>
    rw [lines] at h
    cases number with
    | zero =>
      obtain rfl : [] = line := Option.some.inj h
      exact .ended List.not_mem_nil .returnFeed rest
    | succ number => exact @IsLineAt.behind _ ['\r'] rest number (by simp) (ih h)
  | case4 c rest hfeed hreturn ih =>
    rw [lines_other hfeed hreturn, consFirst_eq] at h
    cases number with
    | zero =>
      obtain rfl : c :: (lines rest).headD [] = line := Option.some.inj h
      cases hlines : lines rest with
      | nil =>
        obtain rfl : rest = [] := not_not.mp fun hrest ↦ lines_ne_nil hrest hlines
        exact .last (by simp [Ne.symm hfeed])
      | cons first others =>
        have hfirst : IsLineAt first 0 rest := ih (by simp [hlines])
        exact hfirst.cons_zero hfeed
    | succ number =>
      rw [List.getElem?_cons_succ, List.getElem?_tail] at h
      exact (ih h).cons_succ hfeed

end Segmentation.Text

namespace Segmentation.EventFile

open Text

/-! ### Entries by number -/

section Entries

variable {α : Type} (kept : α → Bool) (read : α → Except Event.Refusal Event)
  (refuse : ℕ → Event.Refusal → Refusal)

/-- The events of some entries, counted on from a number; entries that are not kept are passed
over. -/
def readEntries (start : ℕ) : List α → Except Refusal (List Event)
  | [] => .ok []
  | entry :: rest =>
    if kept entry then do
      let event ← (read entry).mapError (refuse start)
      .ok (event :: (← readEntries (start + 1) rest))
    else readEntries (start + 1) rest

/-- The entry is the first one that is refused: those before it are passed over or accepted. -/
structure IsFirstRefused (before : List α) (entry : α) (refusal : Event.Refusal) : Prop where
  accepted : ∀ other ∈ before, kept other = true → ∃ event, read other = .ok event
  kept_eq : kept entry = true
  read_eq : read entry = .error refusal

variable {kept read}

theorem IsFirstRefused.cons {before : List α} {first entry : α} {refusal : Event.Refusal}
    (h : IsFirstRefused kept read before entry refusal)
    (hfirst : kept first = true → ∃ event, read first = .ok event) :
    IsFirstRefused kept read (first :: before) entry refusal :=
  ⟨List.forall_mem_cons.mpr ⟨hfirst, h.accepted⟩, h.kept_eq, h.read_eq⟩

variable (kept read)

/-- Either all entries are accepted, or the first that is not is refused under its number. -/
theorem readEntries_cases (start : ℕ) (entries : List α) :
    (∃ events, readEntries kept read refuse start entries = .ok events ∧
      List.Forall₂ (fun entry event ↦ read entry = .ok event) (entries.filter kept) events) ∨
    ∃ before entry after refusal, entries = before ++ entry :: after ∧
      IsFirstRefused kept read before entry refusal ∧
      readEntries kept read refuse start entries =
        .error (refuse (start + before.length) refusal) := by
  induction entries generalizing start with
  | nil => exact Or.inl ⟨[], rfl, .nil⟩
  | cons first rest ih =>
    cases hkept : kept first with
    | false =>
      have hskip : readEntries kept read refuse start (first :: rest) =
          readEntries kept read refuse (start + 1) rest := by
        rw [readEntries, hkept, if_neg Bool.false_ne_true]
      rw [hskip, List.filter_cons_of_neg (by simp [hkept])]
      refine (ih (start + 1)).imp id ?_
      rintro ⟨before, entry, after, refusal, rfl, hrefused, herror⟩
      refine ⟨first :: before, entry, after, refusal, rfl, hrefused.cons (by simp [hkept]), ?_⟩
      rw [herror, List.length_cons, Nat.add_right_comm, Nat.add_assoc]
    | true =>
      cases hread : read first with
      | error refusal =>
        refine Or.inr ⟨[], first, rest, refusal, rfl, ⟨by simp, hkept, hread⟩, ?_⟩
        rw [readEntries, hkept, if_pos rfl, hread]
        rfl
      | ok event =>
        have hstep : readEntries kept read refuse start (first :: rest) =
            (readEntries kept read refuse (start + 1) rest).map (event :: ·) := by
          rw [readEntries, hkept, if_pos rfl, hread]
          cases readEntries kept read refuse (start + 1) rest <;> rfl
        rw [hstep, List.filter_cons_of_pos hkept]
        rcases ih (start + 1) with
          ⟨events, hevents, hall⟩ | ⟨before, entry, after, refusal, rfl, hrefused, herror⟩
        · exact Or.inl ⟨event :: events, by rw [hevents]; rfl, .cons hread hall⟩
        · refine Or.inr ⟨first :: before, entry, after, refusal, rfl,
            hrefused.cons fun _ ↦ ⟨event, hread⟩, ?_⟩
          rw [herror, List.length_cons, Nat.add_right_comm, Nat.add_assoc]
          rfl

variable {entries : List α}

/-- Entries that are all accepted give their events in order. -/
theorem exists_readEntries (start : ℕ)
    (h : ∀ entry ∈ entries, kept entry = true → ∃ event, read entry = .ok event) :
    ∃ events, readEntries kept read refuse start entries = .ok events ∧
      List.Forall₂ (fun entry event ↦ read entry = .ok event) (entries.filter kept) events := by
  rcases readEntries_cases kept read refuse start entries with
    haccepted | ⟨before, entry, after, refusal, rfl, hrefused, -⟩
  · exact haccepted
  · obtain ⟨event, hevent⟩ := h entry (by simp) hrefused.kept_eq
    exact absurd (hevent.symm.trans hrefused.read_eq) (by simp)

/-- If some entry is not accepted, then the first such entry is refused. -/
theorem exists_isFirstRefused (start : ℕ)
    (h : ¬∀ entry ∈ entries, kept entry = true → ∃ event, read entry = .ok event) :
    ∃ before entry after refusal, entries = before ++ entry :: after ∧
      IsFirstRefused kept read before entry refusal ∧
      readEntries kept read refuse start entries =
        .error (refuse (start + before.length) refusal) := by
  rcases readEntries_cases kept read refuse start entries with ⟨events, -, hall⟩ | hrefused
  · have hboth : List.Forall₂
        (fun entry event ↦ (∃ event, read entry = .ok event) ∧ read entry = .ok event)
        (entries.filter kept) events := hall.imp fun entry event hread ↦ ⟨⟨event, hread⟩, hread⟩
    have haccepted := ((List.forall₂_and_left _ _).mp hboth).1
    exact absurd (fun entry hentry hkept ↦
      haccepted entry (List.mem_filter.mpr ⟨hentry, hkept⟩)) h
  · exact hrefused

end Entries

/-- The items of a list are all kept. -/
theorem eventsOfItems_eq_readEntries (start : ℕ) (documents : List Json) :
    eventsOfItems start documents =
      readEntries (fun _ ↦ true) Event.ofJson .item start documents := by
  induction documents generalizing start with
  | nil => rfl
  | cons document rest ih => rw [eventsOfItems, readEntries, ih, if_pos rfl]

/-- Blank lines are passed over. -/
theorem eventsOfLines_eq_readEntries (start : ℕ) (lines : List (List Char)) :
    eventsOfLines start lines =
      readEntries (fun line ↦ !isBlankText line) (fun line ↦ Event.read (String.ofList line)) .line
        start lines := by
  induction lines generalizing start with
  | nil => rfl
  | cons line rest ih =>
    rw [eventsOfLines, readEntries, ih]
    cases isBlankText line <;> rfl

/-! ### Refusals -/

variable {text : String}

/-- A list of documents is read item by item. -/
theorem read_of_array {documents : List Json} (h : Json.read text = .ok (.array documents)) :
    read text = readEntries (fun _ ↦ true) Event.ofJson .item 0 documents := by
  obtain ⟨c, rest, hstart, hbracket⟩ := Json.exists_start_of_read h
  have hlist : readDocuments text = .ok documents := Json.readWith_listOf_eq_ok_iff.mpr h
  rw [read, hstart]
  simp only [if_pos (hbracket.mpr ⟨documents, rfl⟩), hlist]
  exact eventsOfItems_eq_readEntries 0 documents

/-- What is no document is read line by line. -/
theorem read_of_not_document {c : Char} {rest : List Char}
    (hstart : trimStart text.toList = c :: rest) (hc : c ≠ '[')
    (h : ∀ document, Json.read text ≠ .ok document) :
    read text = readEntries (fun line ↦ !isBlankText line)
      (fun line ↦ Event.read (String.ofList line)) .line 1 (lines text.toList) := by
  rw [read, hstart]
  cases hread : Json.read text with
  | ok document => exact absurd hread (h document)
  | error error =>
    simp only [if_neg hc]
    exact eventsOfLines_eq_readEntries 1 (lines text.toList)

/-- The line is blank or an event. -/
def IsAcceptable (line : List Char) : Prop :=
  isBlankText line = true ∨ ∃ event, Event.read (String.ofList line) = .ok event

theorem isAcceptable_iff {line : List Char} : IsAcceptable line ↔
    ((!isBlankText line) = true → ∃ event, Event.read (String.ofList line) = .ok event) := by
  rw [IsAcceptable]
  cases isBlankText line <;> simp

/-- Refusals point at the first entry that is no event. A text that is a list of documents gives the
events of these documents in their order, if all of them are objects; else it is refused with the
position of the first that is none, counted from zero. A text that is not blank, does not start with
a square bracket and is no document gives the events of its lines in their order, blank lines left
out, if these are all acceptable; else it is refused with the number of the first line that is not,
counted from one, blank lines included. A refusal stands in the place of the events. -/
theorem refusals_point_at_first (text : String) :
    (∀ documents, Json.read text = .ok (.array documents) →
      ((∀ document ∈ documents, document.IsObject) → ∃ events, read text = .ok events ∧
        List.Forall₂ (fun document event ↦ Event.ofJson document = .ok event) documents events) ∧
      ((¬∀ document ∈ documents, document.IsObject) → ∃ before document after refusal,
        documents = before ++ document :: after ∧ (∀ other ∈ before, other.IsObject) ∧
        ¬document.IsObject ∧ read text = .error (.item before.length refusal) ∧
        (Refusal.item before.length refusal).causes =
          ("Array element " ++ toString before.length) :: refusal.causes)) ∧
    ∀ c rest, trimStart text.toList = c :: rest → c ≠ '[' →
      (∀ document, Json.read text ≠ .ok document) →
      ((∀ line ∈ lines text.toList, IsAcceptable line) → ∃ events, read text = .ok events ∧
        List.Forall₂ (fun line event ↦ Event.read (String.ofList line) = .ok event)
          ((lines text.toList).filter fun line ↦ !isBlankText line) events) ∧
      ((¬∀ line ∈ lines text.toList, IsAcceptable line) → ∃ before line after refusal,
        lines text.toList = before ++ line :: after ∧ IsLineAt line before.length text.toList ∧
        (∀ other ∈ before, IsAcceptable other) ∧ ¬IsAcceptable line ∧
        read text = .error (.line (before.length + 1) refusal) ∧
        (Refusal.line (before.length + 1) refusal).causes =
          ("Line " ++ toString (before.length + 1)) :: refusal.causes) := by
  constructor
  · intro documents hread
    simp only [read_of_array hread, ← Event.exists_ofJson_iff]
    constructor
    · intro hobjects
      have hall := exists_readEntries (fun _ ↦ true) Event.ofJson .item 0
        fun document hdocument _ ↦ hobjects document hdocument
      rwa [List.filter_true] at hall
    · intro hsome
      obtain ⟨before, document, after, refusal, hsplit, hrefused, herror⟩ :=
        exists_isFirstRefused (fun _ ↦ true) Event.ofJson .item 0
          (by simpa only [forall_const] using hsome)
      rw [Nat.zero_add] at herror
      refine ⟨before, document, after, refusal, hsplit,
        fun other hother ↦ hrefused.accepted other hother rfl, ?_, herror, rfl⟩
      rintro ⟨event, hevent⟩
      exact absurd (hevent.symm.trans hrefused.read_eq) (by simp)
  · intro c rest hstart hc hread
    simp only [read_of_not_document hstart hc hread, isAcceptable_iff]
    refine ⟨fun haccepted ↦ exists_readEntries _ _ _ _ haccepted, fun hsome ↦ ?_⟩
    obtain ⟨before, line, after, refusal, hsplit, hrefused, herror⟩ :=
      exists_isFirstRefused (fun line ↦ !isBlankText line)
        (fun line ↦ Event.read (String.ofList line)) .line 1 hsome
    have hline : (lines text.toList)[before.length]? = some line := by simp [hsplit]
    rw [Nat.add_comm] at herror
    refine ⟨before, line, after, refusal, hsplit, isLineAt_of_getElem? hline, hrefused.accepted,
      fun haccepted ↦ ?_, herror, rfl⟩
    obtain ⟨event, hevent⟩ := haccepted hrefused.kept_eq
    exact absurd (hevent.symm.trans hrefused.read_eq) (by simp)

/-- A list whose second and fourth item are no objects, and lines of which the fourth and the fifth
are no events: an empty line and a line with a no-break space count. -/
theorem refusals_point_at_first_later :
    let list := "[\x7b\"a\":1\x7d, 2, \x7b\x7d, null]"
    let text := "\x7b\"a\":1\x7d\r\n\n\u00a0\n\x7b\"a\":\x7d\n[1]\n"
    (∃ refusal, read list = .error (.item 1 refusal) ∧
      (Refusal.item 1 refusal).causes = "Array element 1" :: refusal.causes) ∧
    ∃ line refusal, read text = .error (.line 4 refusal) ∧ IsLineAt line 3 text.toList ∧
      (Refusal.line 4 refusal).causes = "Line 4" :: refusal.causes := by
  intro list text
  have hlists := (refusals_point_at_first list).1
  have hlines := (refusals_point_at_first text).2
  constructor
  · have hitem : (match read list with
        | .error (.item position _) => position == 1
        | _ => false) = true := by decide +kernel
    have harray : (Json.read list).toOption.any (fun document ↦ match document with
        | .array _ => true
        | _ => false) = true := by decide +kernel
    obtain ⟨document, hread, hdocument⟩ := Json.any_toOption.mp harray
    cases document with
    | array documents =>
      obtain ⟨hall, hsome⟩ := hlists documents hread
      obtain ⟨before, -, -, refusal, -, -, -, herror, hcauses⟩ := hsome fun hobjects ↦ by
        obtain ⟨events, hevents, -⟩ := hall hobjects
        rw [hevents] at hitem
        exact absurd hitem (by simp)
      rw [herror, beq_iff_eq] at hitem
      rw [hitem] at herror hcauses
      exact ⟨refusal, herror, hcauses⟩
    | _ => exact absurd hdocument (by simp)
  · have hline : (match read text with
        | .error (.line number _) => number == 4
        | _ => false) = true := by decide +kernel
    have hnone : (Json.read text).toOption.isNone = true := by decide +kernel
    have hstart : trimStart text.toList = '\x7b' :: text.toList.tail := by decide +kernel
    obtain ⟨hall, hsome⟩ := hlines _ _ hstart (by decide) fun document hread ↦ by
      rw [hread] at hnone
      exact Bool.noConfusion hnone
    obtain ⟨before, line, -, refusal, -, hat, -, -, herror, hcauses⟩ := hsome fun haccepted ↦ by
      obtain ⟨events, hevents, -⟩ := hall haccepted
      rw [hevents] at hline
      exact absurd hline (by simp)
    rw [herror, beq_iff_eq] at hline
    have hlength : before.length = 3 := Nat.succ.inj hline
    rw [hlength] at herror hcauses hat
    exact ⟨line, refusal, herror, hat, hcauses⟩

end Segmentation.EventFile
