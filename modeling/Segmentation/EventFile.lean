import Segmentation.Event
import Segmentation.Text.Character

/-!
Files of events. A file that starts with a square bracket is a list of events; any other file is one
document, or one document on each line that is not blank. Blank files hold no events. The first
entry that is no event is reported with its place: items of a list are counted from zero, lines from
one, blank lines included.
-/

set_option autoImplicit false

namespace Segmentation

namespace EventFile

open Text

/-- Why a file holds no events. -/
inductive Refusal where
  | malformedList (error : Json.ReadError)
  | item (index : Nat) (refusal : Event.Refusal)
  | document (refusal : Event.Refusal)
  | line (number : Nat) (refusal : Event.Refusal)

/-- The causes of a refusal, outermost first. -/
def Refusal.causes : Refusal → List String
  | .malformedList error => [error.message]
  | .item index refusal => ("Array element " ++ toString index) :: refusal.causes
  | .document refusal => refusal.causes
  | .line number refusal => ("Line " ++ toString number) :: refusal.causes

/-- The documents that a text lists. -/
def readDocuments (text : String) : Except Json.ReadError (List Json) :=
  let scan := fun limit ↦ Json.listOf (Json.value limit (Json.maxDepth - 1)) limit
  Json.readWith scan text

/-- The events of a list of documents, counted on from a position. -/
def eventsOfItems (start : Nat) : List Json → Except Refusal (List Event)
  | [] => .ok []
  | document :: rest => do
    let event ← (Event.ofJson document).mapError (Refusal.item start)
    .ok (event :: (← eventsOfItems (start + 1) rest))

/-- The events of some lines, counted on from a number; blank lines hold none. -/
def eventsOfLines (start : Nat) : List (List Char) → Except Refusal (List Event)
  | [] => .ok []
  | line :: rest =>
    if isBlankText line then eventsOfLines (start + 1) rest
    else do
      let event ← (Event.read (String.ofList line)).mapError (Refusal.line start)
      .ok (event :: (← eventsOfLines (start + 1) rest))

/-- The events that a file's text holds. -/
def read (text : String) : Except Refusal (List Event) :=
  match trimStart text.toList with
  | [] => .ok []
  | c :: _ =>
    if c = '[' then
      match readDocuments text with
      | .error error => .error (.malformedList error)
      | .ok documents => eventsOfItems 0 documents
    else match Json.read text with
      | .ok document =>
        match Event.ofJson document with
        | .ok event => .ok [event]
        | .error refusal => .error (.document refusal)
      | .error _ => eventsOfLines 1 (lines text.toList)

end EventFile

end Segmentation
