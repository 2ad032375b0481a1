import Segmentation.Evaluation
import Segmentation.Schedule

/-!
Membership reports: for each segment, which of the events satisfy its filters. Events are known by
their position. The segments are shared out as tasks, and within each segment the events are; only
when all events have been looked at is the line about the segment logged.
-/

set_option autoImplicit false

namespace Segmentation

/-- The members of one segment. -/
structure Report where
  name : String
  /-- The number of all events. -/
  total : Nat
  /-- The number of members. -/
  matched : Nat
  /-- The positions of the members, in increasing order. -/
  members : List Nat
  deriving DecidableEq

namespace Report

/-- The positions at which an event passed, counted on from a position. -/
def positionsFrom (start : Nat) : List Bool → List Nat
  | [] => []
  | passed :: rest =>
    if passed then start :: positionsFrom (start + 1) rest else positionsFrom (start + 1) rest

/-- The report on the segment at a position. -/
def ofSegment (schedule : Schedule) (settings : Settings) (events : List Event) (index : Nat)
    (segment : Segment) : Logged Report := do
  let passed ← Logged.together schedule (.events index)
    (events.map fun event ↦ settings.evaluate event segment.filters)
  let members := positionsFrom 0 passed
  Logged.log .debug .report ("Segment '" ++ segment.name ++ "': " ++ toString members.length ++
    " of " ++ toString events.length ++ " events match")
  return ⟨segment.name, events.length, members.length, members⟩

/-- The reports on some segments, in their order. -/
def ofSegments (schedule : Schedule) (settings : Settings) (events : List Event)
    (segments : List Segment) : Logged (List Report) :=
  Logged.together schedule .segments (segments.mapIdx (ofSegment schedule settings events))

end Report

end Segmentation
