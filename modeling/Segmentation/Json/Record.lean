import Segmentation.Json.Reader
import Segmentation.Json.Skip

/-!
Reading records: values with a fixed set of fields. A record is an object, whose fields may come in
any order and under more than one name, or a list of the fields in order, of which the optional ones
may be left off the end. Members of an object that are no fields are passed over.

A record that is complete as JSON can still be refused. What is wrong with a single value is noticed
where that value ends, but what is wrong with the record as a whole is noticed only after its
closing bracket has been looked for.
-/

set_option autoImplicit false

namespace Segmentation.Json

/-- A fault inside a record: one with a place of its own, or one of the record as a whole, with the
text not yet read. -/
inductive RecordFault where
  | placed (fault : Fault)
  | overall (cause : Cause) (rest : List Char)

/-- Reading inside a record. -/
abbrev RecordScan (α : Type) := List Char → Except RecordFault (α × List Char)

/-- A scan of which every fault has a place of its own. -/
def placed {α : Type} (result : Except Fault α) : Except RecordFault α :=
  result.mapError .placed

/-! ### Scalars of a wanted type -/

/-- The description of a scalar that stands where another type is wanted. -/
def Found.ofScalar : Json → Found
  | .null => .null
  | .bool b => .boolean b
  | .number (.integer n) => .integer n
  | .number (.double x) => .double x
  | .string s => .text s
  | .array _ => .list
  | .object _ => .object

/-- The complaint about a value of the wrong type. A scalar is read first; a list or object is not
entered. -/
def wrongType (limit : Nat) (wanted : String) (text : List Char) : Fault :=
  match text with
  | '[' :: _ => .before (.wrongType .list wanted) text
  | '\x7b' :: _ => .before (.wrongType .object wanted) text
  | _ =>
    match valueWith limit none text with
    | .error fault => fault
    | .ok (scalar, rest) => .before (.wrongType (.ofScalar scalar) wanted) rest

/-- A string, where the message calls for `wanted`. -/
def stringWanted (wanted : String) (limit : Nat) : Scan String := fun text ↦
  match skipSpace text with
  | [] => .error (.atEnd .endInValue)
  | c :: rest =>
    if c = '"' then stringTail limit rest else .error (wrongType limit wanted (c :: rest))

def stringValue (limit : Nat) : Scan String := stringWanted "a string" limit

/-- A truth value. -/
def booleanValue (limit : Nat) : Scan Bool := fun text ↦
  match skipSpace text with
  | [] => .error (.atEnd .endInValue)
  | c :: rest =>
    if c = 't' then do .ok (true, ← word "rue".toList rest)
    else if c = 'f' then do .ok (false, ← word "alse".toList rest)
    else .error (wrongType limit "a boolean" (c :: rest))

/-- A string of exactly one character. -/
def charValue (limit : Nat) : Scan Char := fun text ↦ do
  let (s, rest) ← stringWanted "a character" limit text
  match s.toList with
  | [c] => .ok (c, rest)
  | _ => .error (.before (.wrongValue (.text s) "a character") rest)

/-! ### Records -/

/-- A field of a record, of which `σ` holds the fields read so far. -/
structure RecordField (σ : Type) where
  /-- The name in messages. -/
  name : String
  /-- Other names under which the field is recognised. -/
  aliases : List String
  /-- Whether the field was read. -/
  isSet : σ → Bool
  /-- Reads the value of the field. -/
  read : σ → RecordScan σ

/-- A kind of record. -/
structure Shape (σ α : Type) where
  /-- What messages call the record. -/
  wanted : String
  fields : List (RecordField σ)
  /-- No field read yet. -/
  start : σ
  /-- The finished record, or the name of the first field that it lacks. -/
  finish : σ → Except String α

variable {σ α : Type}

/-- The field that a name means. -/
def Shape.field? (shape : Shape σ α) (name : String) : Option (RecordField σ) :=
  shape.fields.find? fun field ↦ field.name == name || field.aliases.contains name

/-- The members of a record up to and including the closing bracket. -/
def Shape.readMembers (shape : Shape σ α) (bound : Nat) (first : Bool) :
    Nat → σ → RecordScan σ
  | 0, _, _ => .error (.placed (.atEnd .endInObject))
  | limit + 1, state, text => do
    match ← placed (nextMember first text) with
    | .close rest => .ok (state, rest)
    | .entry rest =>
      let (name, rest) ← placed (stringTail bound rest)
      match shape.field? name with
      | none =>
        let (_, rest) ← placed (skip bound (← placed (colon rest)))
        readMembers shape bound false limit state rest
      | some field =>
        if field.isSet state then .error (.overall (.duplicateField field.name) rest)
        else
          let (state, rest) ← field.read state (← placed (colon rest))
          readMembers shape bound false limit state rest

/-- What follows the last field of a list has to be the closing bracket. -/
def endOfList (text : List Char) : Except Fault (List Char) :=
  match skipSpace text with
  | [] => .error (.atEnd .endInList)
  | c :: rest =>
    if c = ']' then .ok rest
    else if c = ',' then
      match skipSpace rest with
      | [] => .error (.atEnd .trailingText)
      | d :: rest =>
        .error (.upon (if d = ']' then .trailingComma else .trailingText) (d :: rest))
    else .error (.upon .trailingText (c :: rest))

/-- The fields of a record as the items of a list, up to and including the closing bracket, with
the number of fields read. -/
def readItems (first : Bool) : List (RecordField σ) → σ → RecordScan (σ × Nat)
  | [], state, text => do .ok ((state, 0), ← placed (endOfList text))
  | field :: fields, state, text => do
    match ← placed (nextItem first text) with
    | .close rest => .ok ((state, 0), rest)
    | .entry rest =>
      let (state, rest) ← field.read state rest
      let ((state, count), rest) ← readItems false fields state rest
      .ok ((state, count + 1), rest)

/-- What is left of a text after looking for the bracket that closes an object. -/
def pastObjectEnd (text : List Char) : List Char :=
  match skipSpace text with
  | '\x7d' :: rest => rest
  | text => text

/-- What is left of a text after looking for the bracket that closes a list; a comma is passed
too. -/
def pastListEnd (text : List Char) : List Char :=
  match skipSpace text with
  | ']' :: rest => rest
  | ',' :: rest => skipSpace rest
  | text => text

/-- The place of a fault, given what closes the record. -/
def RecordFault.settle (close : List Char → List Char) : RecordFault → Fault
  | .placed fault => fault
  | .overall cause rest => .before cause (close rest)

/-- A record written as an object, after its opening bracket. -/
def Shape.readObject (shape : Shape σ α) (limit : Nat) : Scan α := fun text ↦ do
  let (state, rest) ←
    (shape.readMembers limit true limit shape.start text).mapError (·.settle pastObjectEnd)
  match shape.finish state with
  | .ok record => .ok (record, rest)
  | .error name => .error (.before (.missingField name) rest)

/-- A record written as a list, after its opening bracket. -/
def Shape.readList (shape : Shape σ α) : Scan α := fun text ↦ do
  let ((state, count), rest) ←
    (readItems true shape.fields shape.start text).mapError (·.settle pastListEnd)
  match shape.finish state with
  | .ok record => .ok (record, rest)
  | .error _ =>
    let wanted := shape.wanted ++ " with " ++ toString shape.fields.length ++ " elements"
    .error (.before (.wrongLength count wanted) rest)

/-- A record. Opening it takes one of the brackets that may be open. -/
def Shape.read (shape : Shape σ α) (limit depth : Nat) : Scan α := fun text ↦
  match skipSpace text with
  | [] => .error (.atEnd .endInValue)
  | c :: rest =>
    if c = '[' then
      if depth = 0 then .error (.upon .tooDeep (c :: rest)) else shape.readList rest
    else if c = '\x7b' then
      if depth = 0 then .error (.upon .tooDeep (c :: rest)) else shape.readObject limit rest
    else .error (wrongType limit shape.wanted (c :: rest))

/-- A list of values read by another scan. -/
def listOf (read : Scan α) (limit : Nat) : Scan (List α) := fun text ↦
  match skipSpace text with
  | [] => .error (.atEnd .endInValue)
  | c :: rest =>
    if c = '[' then items read true limit rest
    else .error (wrongType limit "a sequence" (c :: rest))

/-- A map from names to values read by another scan; the last value of a name counts. -/
def mapOf (read : Scan α) (limit : Nat) : Scan (List (String × α)) := fun text ↦
  match skipSpace text with
  | [] => .error (.atEnd .endInValue)
  | c :: rest =>
    if c = '\x7b' then do
      let (entries, rest) ← members limit read true limit rest
      .ok (Members.ofList entries, rest)
    else .error (wrongType limit "a map" (c :: rest))

end Segmentation.Json
