import Segmentation.Configuration.Reader
import Segmentation.Failure

/-!
Loading the files of a run. Each step that succeeds leaves its line in the log.
-/

set_option autoImplicit false

namespace Segmentation.Load

/-- The text of a file. -/
def text (files : FileReader) (role : FileRole) (path : String) : Except Failure String :=
  (files path).mapError (Failure.unreadable role path)

/-- The events of a file, without the log. -/
def events? (files : FileReader) (path : String) : Except Failure (List Event) := do
  (EventFile.read (← text files .event path)).mapError (Failure.badEvents path)

/-- The filters of a file, without the log. -/
def filters? (files : FileReader) (path : String) : Except Failure (List Filter) := do
  (Filter.readList (← text files .filter path)).mapError (Failure.badFilters path)

/-- The configuration of a file, before it is checked. -/
def configuration? (files : FileReader) (path : String) : Except Failure Configuration := do
  match Configuration.read (← text files .configuration path) with
  | some configuration => .ok configuration
  | none => .error (.malformedConfiguration path)

/-- The events of a file. -/
def events (files : FileReader) (path : String) : Attempt (List Event) := do
  let loaded ← Attempt.ofExcept (events? files path)
  Attempt.log .debug .input
    ("Loaded " ++ toString loaded.length ++ " event(s) from " ++ Text.quoted path)
  return loaded

/-- The filters of a file. -/
def filters (files : FileReader) (path : String) : Attempt (List Filter) := do
  let loaded ← Attempt.ofExcept (filters? files path)
  Attempt.log .debug .input
    ("Loaded " ++ toString loaded.length ++ " filter(s) from " ++ Text.quoted path)
  return loaded

/-- The configuration of a file, which has to be usable. -/
def configuration (files : FileReader) (path : String) : Attempt Configuration := do
  let loaded ← Attempt.ofExcept (configuration? files path)
  match ← Attempt.ofLogged loaded.check with
  | .ok () => return loaded
  | .error defect => Attempt.ofExcept (.error (.invalidConfiguration path defect))

/-- The events of several files, one file after the other. -/
def allEvents (files : FileReader) : List String → Attempt (List Event)
  | [] => return []
  | path :: rest => do
    let first ← events files path
    return first ++ (← allEvents files rest)

end Segmentation.Load
