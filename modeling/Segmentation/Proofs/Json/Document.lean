import Mathlib
import Segmentation.Json.Record
import Segmentation.Proofs.Json.Extension

/-!
# Documents as parts of others

A text that is read as a string or another scalar can be put into an object, as a name or as a
value, and is read there as the same scalar: `StartsString` and `StartsScalar` say what it takes
for a text to start with one, whatever follows. `readMembers_field` is the step by which a record
reads one of its fields, and `members_single` reads an object of one member. A list or a map of
documents is the array or the object that the same text is read as (`readWith_listOf_eq_ok_iff`,
`readWith_mapOf_eq_ok_iff`).
-/

set_option autoImplicit false

namespace Segmentation.Json

variable {α σ : Type}

/-! ### Whole texts -/

theorem mapError_eq_ok_iff {ε ε' : Type} {complain : ε → ε'} {outcome : Except ε α} {a : α} :
    outcome.mapError complain = .ok a ↔ outcome = .ok a := by
  cases outcome <;> simp [Except.mapError]

theorem map_eq_ok_iff {β ε : Type} {f : α → β} {outcome : Except ε α} {b : β} :
    outcome.map f = .ok b ↔ ∃ a, outcome = .ok a ∧ f a = b := by
  cases outcome <;> simp [Except.map]

/-- A scan reaches the end of its text if it leaves nothing but blanks. -/
theorem whole_eq_ok_iff {scan : Scan α} {text : List Char} {result : α} :
    whole scan text = .ok result ↔ ∃ rest, scan text = .ok (result, rest) ∧
      skipSpace rest = [] := by
  constructor
  · intro h
    obtain ⟨⟨found, rest⟩, hscan, h⟩ := bind_eq_ok.mp h
    simp only at h
    split at h
    · rename_i hskip
      exact ⟨rest, by rw [hscan, Except.ok.inj h], hskip⟩
    · exact absurd h (by simp)
  · rintro ⟨rest, hscan, hskip⟩
    refine bind_eq_ok.mpr ⟨(result, rest), hscan, ?_⟩
    simp only [hskip]

theorem readWith_eq_ok_iff {scan : ℕ → Scan α} {text : String} {result : α} :
    readWith scan text = .ok result ↔ ∃ rest,
      scan (text.toList.length + 1) text.toList = .ok (result, rest) ∧ skipSpace rest = [] :=
  mapError_eq_ok_iff.trans whole_eq_ok_iff

/-! ### Strings and scalars -/

/-- The document holds no others. -/
def IsScalar : Json → Prop
  | .array _ => False
  | .object _ => False
  | _ => True

/-- The text starts with a string, blanks apart. -/
def StartsString (limit : ℕ) (text : List Char) (s : String) (rest : List Char) : Prop :=
  ∃ tail, skipSpace text = '"' :: tail ∧ stringTail limit tail = .ok (s, rest)

/-- The text starts with a scalar, blanks apart. -/
def StartsScalar (limit : ℕ) (text : List Char) (scalar : Json) (rest : List Char) : Prop :=
  valueWith limit none text = .ok (scalar, rest)

variable {limit limit' : ℕ} {text rest extra : List Char} {s : String} {scalar : Json}

theorem StartsString.append (h : StartsString limit text s rest) (hlimit : limit ≤ limit') :
    StartsString limit' (text ++ extra) s (rest ++ extra) := by
  obtain ⟨tail, hskip, hread⟩ := h
  exact ⟨tail ++ extra, skipSpace_append hskip, stringTail_append hlimit hread⟩

theorem StartsScalar.append (h : StartsScalar limit text scalar rest) (hlimit : limit ≤ limit')
    (hextra : Separated extra) :
    StartsScalar limit' (text ++ extra) scalar (rest ++ extra) :=
  value_append hextra (le_refl 0) hlimit h

/-- A scalar is read whatever brackets may open. -/
theorem StartsScalar.value (h : StartsScalar limit text scalar rest) (depth : ℕ) :
    value limit depth text = .ok (scalar, rest) := by
  have hclosed : Json.value limit 0 text = .ok (scalar, rest) := h
  have hread := value_append separated_nil (Nat.zero_le depth) (le_refl limit) hclosed
  rwa [List.append_nil, List.append_nil] at hread

/-- A text whose value is a scalar starts with it. -/
theorem startsScalar_of_valueWith {inner : Option (Scan Json)}
    (h : valueWith limit inner text = .ok (scalar, rest)) (hscalar : scalar.IsScalar) :
    StartsScalar limit text scalar rest := by
  apply valueWith_of_reading
  cases reading_of_valueWith h with
  | string hskip hread => exact .string hskip hread
  | array hinner hskip hread => exact hscalar.elim
  | object hinner hskip hread => exact hscalar.elim
  | null hskip hread => exact .null hskip hread
  | true hskip hread => exact .true hskip hread
  | false hskip hread => exact .false hskip hread
  | number hskip hc hread => exact .number hskip hc hread

/-- A text whose value is a string starts with it. -/
theorem startsString_of_valueWith {inner : Option (Scan Json)}
    (h : valueWith limit inner text = .ok (.string s, rest)) : StartsString limit text s rest := by
  cases reading_of_valueWith h with
  | string hskip hread => exact ⟨_, hskip, hread⟩

/-- A number that is read as a value is finite. -/
theorem exists_finite_of_valueWith {inner : Option (Scan Json)} {n : Number}
    (h : valueWith limit inner text = .ok (.number n, rest)) :
    ∃ negative rank, n.toBinary64 = .finite negative rank := by
  cases reading_of_valueWith h with
  | number hskip hc hread =>
    obtain ⟨literal, -, -, hnumber⟩ := exists_literal hread
    exact ⟨literal.negative, Literal.exists_finite_of_number? hnumber⟩

/-- A text that is read as a scalar starts with it and goes on with blanks. -/
theorem startsScalar_of_read {text : String} (h : read text = .ok scalar)
    (hscalar : scalar.IsScalar) : ∃ rest,
      StartsScalar (text.toList.length + 1) text.toList scalar rest ∧ skipSpace rest = [] := by
  obtain ⟨rest, hread, hskip⟩ := readWith_eq_ok_iff.mp h
  exact ⟨rest, startsScalar_of_valueWith hread hscalar, hskip⟩

/-- A text that is read as a string starts with it and goes on with blanks. -/
theorem startsString_of_read {text : String} (h : read text = .ok (.string s)) : ∃ rest,
    StartsString (text.toList.length + 1) text.toList s rest ∧ skipSpace rest = [] := by
  obtain ⟨rest, hread, hskip⟩ := readWith_eq_ok_iff.mp h
  exact ⟨rest, startsString_of_valueWith hread, hskip⟩

/-! ### Literals as values -/

/-- A literal starts with its sign or its first digit. -/
theorem Literal.exists_text_cons (literal : Literal) : ∃ c tail, literal.text = c :: tail ∧
    (c = '-' ∨ Text.isDigit c = true) := by
  unfold Literal.text
  cases literal.negative with
  | true => exact ⟨'-', _, rfl, Or.inl rfl⟩
  | false =>
    obtain ⟨c, word, hwhole⟩ := List.exists_cons_of_ne_nil literal.whole_ne_nil
    have hc : Text.isDigit c = true :=
      (hwhole ▸ literal.whole_isDigits : IsDigits (c :: word)).head
    rw [hwhole]
    exact ⟨c, _, rfl, Or.inr hc⟩

/-- A character that starts a number is no blank. -/
theorem isSpace_numberStart {c : Char} (hc : c = '-' ∨ Text.isDigit c = true) :
    isSpace c = false := by
  rcases hc with rfl | hc
  · rfl
  · exact isSpace_of_isDigit hc

variable {inner : Option (Scan Json)} {after : List Char}

/-- Blanks before a literal are passed. -/
theorem exists_skipSpace_literal {blanks : List Char} (hblank : skipSpace blanks = [])
    (literal : Literal) (rest : List Char) : ∃ c tail, literal.text ++ rest = c :: tail ∧
      (c = '-' ∨ Text.isDigit c = true) ∧
      skipSpace (blanks ++ (literal.text ++ rest)) = c :: tail := by
  obtain ⟨c, tail, htext, hc⟩ := literal.exists_text_cons
  refine ⟨c, tail ++ rest, by rw [htext, List.cons_append], hc, ?_⟩
  rw [htext, List.cons_append, skipSpace_blanks hblank (isSpace_numberStart hc)]

/-- The value at the front of a text that starts with a literal is the number of the literal. -/
theorem valueWith_literal {blanks : List Char} (hblank : skipSpace blanks = [])
    (literal : Literal) (hends : literal.Ends rest) {n : Number} (h : literal.number? = some n) :
    valueWith limit inner (blanks ++ (literal.text ++ rest)) = .ok (.number n, rest) := by
  obtain ⟨c, tail, htext, hc, hskip⟩ := exists_skipSpace_literal hblank literal rest
  have hread := numberLiteral_text literal hends
  rw [h, htext] at hread
  exact valueWith_of_reading (.number hskip hc hread)

/-- A literal that is read as a value has a number. -/
theorem exists_number_of_valueWith {blanks : List Char} (hblank : skipSpace blanks = [])
    (literal : Literal) (hends : literal.Ends rest) {document : Json}
    (h : valueWith limit inner (blanks ++ (literal.text ++ rest)) = .ok (document, after)) :
    ∃ n, literal.number? = some n := by
  obtain ⟨c, tail, htext, hc, hskip⟩ := exists_skipSpace_literal hblank literal rest
  have hread := numberLiteral_text literal hends
  have hother := ne_of_numberStart hc
  simp only [List.mem_cons, List.not_mem_nil, or_false, forall_eq_or_imp, forall_eq] at hother
  cases hnumber : literal.number? with
  | some n => exact ⟨n, rfl⟩
  | none =>
    rw [hnumber] at hread
    obtain ⟨fault, hfault⟩ := hread
    cases reading_of_valueWith h with
    | string hvalue => exact absurd (List.cons.inj (hskip.symm.trans hvalue)).1 hother.1
    | array hinner hvalue => exact absurd (List.cons.inj (hskip.symm.trans hvalue)).1 hother.2.1
    | object hinner hvalue =>
      exact absurd (List.cons.inj (hskip.symm.trans hvalue)).1 hother.2.2.1
    | null hvalue => exact absurd (List.cons.inj (hskip.symm.trans hvalue)).1 hother.2.2.2.1
    | true hvalue => exact absurd (List.cons.inj (hskip.symm.trans hvalue)).1 hother.2.2.2.2.1
    | false hvalue => exact absurd (List.cons.inj (hskip.symm.trans hvalue)).1 hother.2.2.2.2.2
    | number hvalue hd hnumberLiteral =>
      rw [← hvalue, hskip, ← htext, hfault] at hnumberLiteral
      exact absurd hnumberLiteral (by simp)

/-! ### Entries -/

/-- Every item of a list is read by the scan for items. -/
theorem forall_mem_items {P : α → Prop} {read : Scan α}
    (hread : ∀ {text rest : List Char} {a : α}, read text = .ok (a, rest) → P a) {first : Bool}
    {list : List α} (h : items read first limit text = .ok (list, rest)) : ∀ a ∈ list, P a := by
  induction limit generalizing text rest list first with
  | zero => exact absurd h (by simp [items])
  | succ limit ih =>
    obtain ⟨step, -, h⟩ := bind_eq_ok.mp h
    cases step with
    | close after =>
      rw [← (Prod.mk.inj (Except.ok.inj h)).1]
      exact fun a ha ↦ absurd ha List.not_mem_nil
    | entry after =>
      obtain ⟨⟨item, afterItem⟩, hitem, h⟩ := bind_eq_ok.mp h
      obtain ⟨⟨more, last⟩, hmore, h⟩ := bind_eq_ok.mp h
      rw [← (Prod.mk.inj (Except.ok.inj h)).1]
      intro a ha
      rcases List.mem_cons.mp ha with rfl | ha
      · exact hread hitem
      · exact ih hmore a ha

/-- Every value of an object is read by the scan for values. -/
theorem forall_mem_members {P : α → Prop} {read : Scan α}
    (hread : ∀ {text rest : List Char} {a : α}, read text = .ok (a, rest) → P a) {first : Bool}
    {bound : ℕ} {list : List (String × α)}
    (h : members bound read first limit text = .ok (list, rest)) : ∀ entry ∈ list, P entry.2 := by
  induction limit generalizing text rest list first with
  | zero => exact absurd h (by simp [members])
  | succ limit ih =>
    obtain ⟨step, -, h⟩ := bind_eq_ok.mp h
    cases step with
    | close after =>
      rw [← (Prod.mk.inj (Except.ok.inj h)).1]
      exact fun entry hentry ↦ absurd hentry List.not_mem_nil
    | entry after =>
      obtain ⟨⟨name, afterName⟩, -, h⟩ := bind_eq_ok.mp h
      obtain ⟨afterColon, -, h⟩ := bind_eq_ok.mp h
      obtain ⟨⟨value, afterValue⟩, hvalue, h⟩ := bind_eq_ok.mp h
      obtain ⟨⟨more, last⟩, hmore, h⟩ := bind_eq_ok.mp h
      rw [← (Prod.mk.inj (Except.ok.inj h)).1]
      intro entry hentry
      rcases List.mem_cons.mp hentry with rfl | hentry
      · exact hread hvalue
      · exact ih hmore entry hentry

/-! ### Members -/

/-- The first member follows the bracket. -/
theorem nextMember_first (h : StartsString limit text s rest) : ∃ tail,
    nextMember true text = .ok (.entry tail) ∧ stringTail limit tail = .ok (s, rest) := by
  obtain ⟨tail, hskip, hread⟩ := h
  refine ⟨tail, ?_, hread⟩
  simp only [nextMember, hskip, nameStart]
  rw [if_neg (by decide), if_pos trivial, if_pos trivial]

/-- Every other member follows a comma, which may follow blanks. -/
theorem nextMember_comma {blanks : List Char} (hblank : skipSpace blanks = [])
    (h : StartsString limit text s rest) : ∃ tail,
    nextMember false (blanks ++ ',' :: text) = .ok (.entry tail) ∧
      stringTail limit tail = .ok (s, rest) := by
  obtain ⟨tail, hskip, hread⟩ := h
  have hcomma : skipSpace (blanks ++ ',' :: text) = ',' :: text := skipSpace_append_of_nil hblank
  refine ⟨tail, ?_, hread⟩
  simp only [nextMember, hcomma, hskip, nameStart]
  rw [if_neg (by decide), if_neg Bool.false_ne_true, if_pos trivial, if_pos trivial]

/-- The closing bracket may follow blanks. -/
theorem nextMember_close (first : Bool) (hblank : skipSpace rest = []) :
    nextMember first (rest ++ '\x7d' :: extra) = .ok (.close extra) :=
  nextMember_eq_close_iff.mpr ⟨rest, hblank, rfl⟩

theorem colon_of_blank (hblank : skipSpace rest = []) :
    colon (rest ++ ':' :: extra) = .ok extra :=
  colon_eq_ok_iff.mpr ⟨rest, hblank, rfl⟩

/-- An object of one member. -/
theorem members_single {read : Scan α} {value : α} {afterName afterValue : List Char}
    (hname : StartsString limit text s (afterName ++ ':' :: extra))
    (hafterName : skipSpace afterName = [])
    (hvalue : read extra = .ok (value, afterValue ++ '\x7d' :: rest))
    (hafterValue : skipSpace afterValue = []) :
    members limit read true (limit' + 2) text = .ok ([(s, value)], rest) := by
  obtain ⟨tail, hstep, hstring⟩ := nextMember_first hname
  refine bind_eq_ok.mpr ⟨_, hstep, bind_eq_ok.mpr ⟨_, hstring, ?_⟩⟩
  refine bind_eq_ok.mpr ⟨_, colon_of_blank hafterName, bind_eq_ok.mpr ⟨_, hvalue, ?_⟩⟩
  have hclose : members limit read false (limit' + 1) (afterValue ++ '\x7d' :: rest) =
      .ok ([], rest) := bind_eq_ok.mpr ⟨_, nextMember_close false hafterValue, rfl⟩
  exact bind_eq_ok.mpr ⟨_, hclose, rfl⟩

/-! ### Fields of records -/

theorem placed_ok (a : α) : placed (.ok a) = .ok a := rfl

/-- A record reads one field and goes on with the others. -/
theorem readMembers_field {β : Type} (shape : Shape σ β) {first : Bool} {state next : σ}
    {field : RecordField σ} {tail afterColon : List Char}
    (hstep : nextMember first text = .ok (.entry tail))
    (hname : stringTail limit tail = .ok (s, rest)) (hfield : shape.field? s = some field)
    (hset : field.isSet state = false) (hcolon : colon rest = .ok afterColon)
    (hread : field.read state afterColon = .ok (next, extra)) :
    shape.readMembers limit first (limit' + 1) state text =
      shape.readMembers limit false limit' next extra := by
  simp only [Shape.readMembers, hstep, hname, placed_ok, hcolon, bind, Except.bind, hfield, hset,
    Bool.false_eq_true, if_false, hread]

/-- A record ends at its closing bracket. -/
theorem readMembers_close {β : Type} (shape : Shape σ β) (first : Bool) (state : σ)
    (hblank : skipSpace rest = []) :
    shape.readMembers limit first (limit' + 1) state (rest ++ '\x7d' :: extra) =
      .ok (state, extra) := by
  simp only [Shape.readMembers, nextMember_close first hblank, placed_ok, bind, Except.bind]

/-! ### Lists and maps of documents -/

variable {depth : ℕ}

/-- The documents of a list are the items of the array that the text starts with. -/
theorem listOf_eq_ok_iff {list : List Json} :
    listOf (value limit depth) limit text = .ok (list, rest) ↔
      value limit (depth + 1) text = .ok (.array list, rest) := by
  constructor
  · intro h
    unfold listOf at h
    split at h
    · exact absurd h (by simp)
    rename_i c tail hskip
    split at h
    · rename_i hc
      exact valueWith_of_reading (.array rfl (hc ▸ hskip) h)
    · exact absurd h (by simp)
  · intro h
    cases reading_of_valueWith h with
    | array hinner hskip hread =>
      obtain rfl := Option.some.inj hinner
      simp only [listOf, hskip, if_true, hread]

/-- The documents of a map are the members of the object that the text starts with. -/
theorem mapOf_eq_ok_iff {list : List (String × Json)} :
    mapOf (value limit depth) limit text = .ok (list, rest) ↔
      value limit (depth + 1) text = .ok (.object list, rest) := by
  constructor
  · intro h
    unfold mapOf at h
    split at h
    · exact absurd h (by simp)
    rename_i c tail hskip
    split at h
    · rename_i hc
      obtain ⟨⟨entries, after⟩, hread, h⟩ := bind_eq_ok.mp h
      obtain ⟨rfl, rfl⟩ := Prod.mk.inj (Except.ok.inj h)
      exact valueWith_of_reading (.object rfl (hc ▸ hskip) hread)
    · exact absurd h (by simp)
  · intro h
    cases reading_of_valueWith h with
    | object hinner hskip hread =>
      obtain rfl := Option.some.inj hinner
      simp only [mapOf, hskip, if_true]
      exact bind_eq_ok.mpr ⟨_, hread, rfl⟩

/-- A text is read as a list of documents if it is read as one document that is an array. -/
theorem readWith_listOf_eq_ok_iff {text : String} {list : List Json} :
    readWith (fun limit ↦ listOf (value limit (maxDepth - 1)) limit) text = .ok list ↔
      read text = .ok (.array list) := by
  rw [read, readWith_eq_ok_iff, readWith_eq_ok_iff]
  simp only [listOf_eq_ok_iff]
  rfl

/-- A text is read as a map of documents if it is read as one document that is an object. -/
theorem readWith_mapOf_eq_ok_iff {text : String} {list : List (String × Json)} :
    readWith (fun limit ↦ mapOf (value limit (maxDepth - 1)) limit) text = .ok list ↔
      read text = .ok (.object list) := by
  rw [read, readWith_eq_ok_iff, readWith_eq_ok_iff]
  simp only [mapOf_eq_ok_iff]
  rfl

end Segmentation.Json
