import Segmentation.Command.Run

/-!
A run step by step. `Command.run` tells what a run leaves behind; here the same run logs its lines
and writes its output in the order in which it comes to them, the verdict on an event before the
next event is looked at. What was written before a run fails or breaks off stays written.
-/

set_option autoImplicit false

namespace Segmentation

/-- What a run does that can be seen from outside. -/
inductive Action where
  /-- A line for the log. -/
  | log (entry : Log.Entry)
  /-- A piece of the standard output. -/
  | write (text : String)
  deriving DecidableEq

/-- The line that an action logs. -/
def Action.entry? : Action → Option Log.Entry
  | .log entry => some entry
  | .write _ => none

/-- The text that an action writes. -/
def Action.text? : Action → Option String
  | .log _ => none
  | .write text => some text

/-- A result together with the actions on the way to it. -/
structure Acting (α : Type) where
  actions : List Action
  value : α

instance : Monad Acting where
  pure value := ⟨[], value⟩
  bind first next :=
    let second := next first.value
    ⟨first.actions ++ second.actions, second.value⟩

/-- A computation that acts and may fail. -/
abbrev Conduct (α : Type) := ExceptT Failure Acting α

namespace Conduct

variable {α : Type}

/-- A computation that writes nothing. -/
def ofAttempt (attempt : Attempt α) : Conduct α :=
  ⟨attempt.run.entries.map Action.log, attempt.run.value⟩

/-- Writes a piece of the output. -/
def write (text : String) : Conduct Unit := ⟨[.write text], .ok ()⟩

/-- Writes lines, one after the other. -/
def writeLines : List String → Conduct Unit
  | [] => return ()
  | line :: rest => do
    write (line ++ "\n")
    writeLines rest

end Conduct

namespace Command

open Conduct (ofAttempt write writeLines)

/-- How a run ends that does not fail. -/
inductive Ending where
  | finished
  | brokenOff
  deriving DecidableEq

/-- Shows the verdict on an event, and tells whether it matches. -/
def showEvent (arguments : Arguments) (filters : Option (List Filter)) (index : Nat)
    (event : Event) : Conduct Bool := do
  if arguments.explain then
    let verdict ← ofAttempt (.ofLogged (arguments.settings.judge event filters))
    write (eventLine index verdict.passed ++ "\n")
    writeLines (verdict.outcomes.map outcomeLine)
    return verdict.passed
  else
    let passed ← ofAttempt (.ofLogged (arguments.settings.evaluate event filters))
    write (eventLine index passed ++ "\n")
    return passed

/-- Shows the verdicts on some events, counted on from a position, and counts those that match. -/
def showEvents (arguments : Arguments) (filters : Option (List Filter)) (start : Nat) :
    List Event → Conduct Nat
  | [] => return 0
  | event :: rest => do
    let passed ← showEvent arguments filters start event
    let matched ← showEvents arguments filters (start + 1) rest
    return if passed then matched + 1 else matched

/-- Shows every event of a file against one filter list. -/
def showMatches (arguments : Arguments) (files : FileReader) (path : String) : Conduct Ending := do
  let events ← ofAttempt (Load.events files path)
  let filters ← ofAttempt (loadFilters files arguments.filters)
  let matched ← showEvents arguments filters 0 events
  ofAttempt (.log .info .command
    (toString matched ++ " of " ++ toString events.length ++ " event(s) matched"))
  return .finished

/-- Shows the reports on every segment of a configuration. -/
def showReports (host : Host) (files : FileReader) (path : String) : Conduct Ending := do
  match ← ofAttempt (reportSegments host files path) with
  | some output =>
    write output
    return .finished
  | none => return .brokenOff

/-- All that a run does in the mode that its arguments select. -/
def conduct (host : Host) (arguments : Arguments) (files : FileReader) : Conduct Ending := do
  ofAttempt (.log .info .command ("Segment Filter CLI v" ++ version))
  ofAttempt (.log .debug .command ("Using segment-filter library v" ++ version))
  match arguments.event, arguments.config with
  | some path, _ => showMatches arguments files path
  | none, some path => showReports host files path
  | none, none =>
    write hint
    return .finished

/-- What is left behind by a run that acts in this way. -/
def response (host : Host) (level : Log.Level) (conduct : Conduct Ending) : Response :=
  let actions := conduct.run.actions
  let output := String.join (actions.filterMap Action.text?)
  let log := logText level (actions.filterMap Action.entry?)
  match conduct.run.value with
  | .ok .finished => ⟨0, output, log⟩
  | .ok .brokenOff => ⟨101, output, log ++ brokenOffText host.mainThread⟩
  | .error failure => ⟨1, output, log ++ failure.describe⟩

end Command

end Segmentation
