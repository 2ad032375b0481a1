import Segmentation.Json.Scalar

/-!
Walking through the entries of a list or an object. A walk starts after the opening bracket; each
step either meets the closing bracket or leaves the reader where the next entry starts. The first
entry follows the bracket, every other one a comma.
-/

set_option autoImplicit false

namespace Segmentation.Json

/-- What a step through a container meets. -/
inductive Step where
  /-- The closing bracket, with what follows it. -/
  | close (rest : List Char)
  /-- The place where the next entry starts. -/
  | entry (rest : List Char)

/-- One step through a list. -/
def nextItem (first : Bool) (text : List Char) : Except Fault Step :=
  match skipSpace text with
  | [] => .error (.atEnd .endInList)
  | c :: rest =>
    if c = ']' then .ok (.close rest)
    else if first then .ok (.entry (c :: rest))
    else if c = ',' then
      match skipSpace rest with
      | [] => .error (.atEnd .endInValue)
      | d :: rest =>
        if d = ']' then .error (.upon .trailingComma (d :: rest)) else .ok (.entry (d :: rest))
    else .error (.upon .expectedListComma (c :: rest))

/-- The place after the opening quote of a name. -/
def nameStart (text : List Char) : Except Fault Step :=
  match text with
  | [] => .error (.atEnd .endInValue)
  | c :: rest =>
    if c = '"' then .ok (.entry rest)
    else if c = '\x7d' then .error (.upon .trailingComma (c :: rest))
    else .error (.upon .keyNotString (c :: rest))

/-- One step through an object; an entry starts after the opening quote of its name. -/
def nextMember (first : Bool) (text : List Char) : Except Fault Step :=
  match skipSpace text with
  | [] => .error (.atEnd .endInObject)
  | c :: rest =>
    if c = '\x7d' then .ok (.close rest)
    else if first then nameStart (c :: rest)
    else if c = ',' then nameStart (skipSpace rest)
    else .error (.upon .expectedObjectComma (c :: rest))

/-- The colon between a name and its value. -/
def colon (text : List Char) : Except Fault (List Char) :=
  match skipSpace text with
  | [] => .error (.atEnd .endInObject)
  | c :: rest => if c = ':' then .ok rest else .error (.upon .expectedColon (c :: rest))

variable {α : Type}

/-- The remaining items of a list, up to and including the closing bracket. -/
def items (read : Scan α) (first : Bool) : Nat → Scan (List α)
  | 0, _ => .error (.atEnd .endInList)
  | limit + 1, text => do
    match ← nextItem first text with
    | .close rest => .ok ([], rest)
    | .entry rest =>
      let (item, rest) ← read rest
      let (more, rest) ← items read false limit rest
      .ok (item :: more, rest)

/-- The remaining members of an object, up to and including the closing bracket, in the order in
which they are written. -/
def members (bound : Nat) (read : Scan α) (first : Bool) : Nat → Scan (List (String × α))
  | 0, _ => .error (.atEnd .endInObject)
  | limit + 1, text => do
    match ← nextMember first text with
    | .close rest => .ok ([], rest)
    | .entry rest =>
      let (name, rest) ← stringTail bound rest
      let (value, rest) ← read (← colon rest)
      let (more, rest) ← members bound read false limit rest
      .ok ((name, value) :: more, rest)

end Segmentation.Json
