import Segmentation.Json.Record
import Segmentation.Text.Lines
import Segmentation.Value.Comparison

/-!
Events: records of named properties. A property is found by its exact name, or by a path through
nested values; an exact name always wins over a path.
-/

set_option autoImplicit false

namespace Segmentation

/-- A record of properties, in increasing order of their names. -/
@[ext]
structure Event where
  properties : List (String × Value)
  ordered : Members.Ordered properties

namespace Event

/-- The event without properties. -/
def empty : Event := ⟨[], Members.ordered_nil⟩

instance : Inhabited Event := ⟨empty⟩

/-- The event of some entries; of several with one name the last one counts. -/
def ofList (entries : List (String × Value)) : Event :=
  ⟨Members.ofList entries, Members.ordered_ofList entries⟩

/-- The number of properties. -/
def size (event : Event) : Nat := event.properties.length

def isEmpty (event : Event) : Bool := event.properties.isEmpty

/-- The property with exactly this name. -/
def get? (event : Event) (name : String) : Option Value := Members.get? name event.properties

/-- The event with one property set. -/
def insert (event : Event) (name : String) (value : Value) : Event :=
  ⟨Members.insert name value event.properties, Members.ordered_insert name value event.ordered⟩

/-- The value that a property had, and the event with the property set. -/
def exchange (event : Event) (name : String) (value : Value) : Option Value × Event :=
  let changed := Members.exchange name value event.properties
  (changed.1, ⟨changed.2, Members.ordered_exchange name value event.ordered⟩)

theorem get?_insert_self (event : Event) (name : String) (value : Value) :
    (event.insert name value).get? name = some value :=
  Members.get?_insert_self name value event.properties

theorem get?_insert_of_ne {name other : String} (h : other ≠ name) (event : Event)
    (value : Value) : (event.insert name value).get? other = event.get? other :=
  Members.get?_insert_of_ne h value event.properties

/-- An exchange gives the property and sets it. -/
theorem exchange_eq (event : Event) (name : String) (value : Value) :
    event.exchange name value = (event.get? name, event.insert name value) := by
  have hchanged := Members.exchange_eq name value event.ordered
  refine Prod.ext ?_ (Event.ext ?_)
  · show (Members.exchange name value event.properties).1 = event.get? name
    rw [hchanged]
    rfl
  · show (Members.exchange name value event.properties).2 = (event.insert name value).properties
    rw [hchanged]
    rfl

/-- Setting a property adds one exactly when there was none of that name. -/
theorem size_insert (event : Event) (name : String) (value : Value) :
    (event.insert name value).size =
      event.size + if (event.get? name).isNone then 1 else 0 :=
  Members.length_insert name value event.ordered

/-- The value reached from a value by stepping through some segments. -/
def descend : Option Value → List String → Option Value
  | found, [] => found
  | found, segment :: rest => descend (found.bind (Value.child? segment)) rest

/-- The segments of a path. -/
def segments (separator : Char) (path : String) : List String :=
  (Text.splitAt separator path.toList).map String.ofList

/-- The property that a path leads to, unless the whole path is itself a name. -/
def lookup? (event : Event) (separator : Char) (path : String) : Option Value :=
  match event.get? path with
  | some value => some value
  | none =>
    match segments separator path with
    | [] => none
    | first :: rest => descend (event.get? first) rest

/-- The whole event as one value. -/
def toValue (event : Event) : Value := .object event.properties

def toJson (event : Event) : Json := event.toValue.toJson

/-- Equality by content: a property that is NaN makes an event unequal to itself. -/
def sameContent (first second : Event) : Bool := first.toValue.sameContent second.toValue

/-! ### Reading events -/

/-- The reasons for which a text holds no event. -/
inductive Refusal where
  | malformed (error : Json.ReadError)
  | notObject (kind : Kind)

def Refusal.message : Refusal → String
  | .malformed error => "Invalid event JSON: " ++ error.message
  | .notObject kind => "Event must be a JSON object, got " ++ kind.name

/-- The causes of a refusal, outermost first; one that has a cause of its own names it twice. -/
def Refusal.causes (refusal : Refusal) : List String :=
  refusal.message :: match refusal with
    | .malformed error => [error.message]
    | .notObject _ => []

/-- The event that a document is. -/
def ofJson (document : Json) : Except Refusal Event :=
  match Value.ofJson document with
  | .object members => .ok (ofList members)
  | other => .error (.notObject other.kind)

/-- The event that a text holds. -/
def read (text : String) : Except Refusal Event :=
  match Json.read text with
  | .ok document => ofJson document
  | .error error => .error (.malformed error)

/-- The event that a text holds, read member by member: what is not an object is refused as soon as
it is met, with its place. -/
def readMap (text : String) : Except Json.ReadError Event :=
  let scan := fun limit ↦ Json.mapOf (Json.value limit (Json.maxDepth - 1)) limit
  (Json.readWith scan text).map fun members ↦ ofList (Value.ofJsonMembers members)

end Event

end Segmentation
