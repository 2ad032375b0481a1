import Segmentation.Log

/-!
Work that is shared out. Tasks that do not wait for each other log their lines in no particular
order: each keeps the order of its own lines, and the lines of different tasks come as they may.
What order they come in is a choice that a schedule makes; the results are collected in the order of
the tasks under every schedule.
-/

set_option autoImplicit false

namespace Segmentation

/-- The parts put together in some order, in which each part keeps its own: from any part that is
not used up the next item is taken. -/
inductive Interleaves {α : Type} : List (List α) → List α → Prop
  | done {parts : List (List α)} (h : ∀ part ∈ parts, part = []) : Interleaves parts []
  | take (before : List (List α)) {after : List (List α)} {item : α} {rest whole : List α}
      (h : Interleaves (before ++ rest :: after) whole) :
      Interleaves (before ++ (item :: rest) :: after) (item :: whole)

namespace Interleaves

variable {α : Type}

/-- A part that is used up is of no account. -/
theorem nil_cons {parts : List (List α)} {whole : List α} (h : Interleaves parts whole) :
    Interleaves ([] :: parts) whole := by
  induction h with
  | done h =>
    refine done fun part hpart ↦ ?_
    rcases List.mem_cons.mp hpart with rfl | hpart
    · rfl
    · exact h part hpart
  | take before _ ih => exact take ([] :: before) ih

/-- One part after the other is an order that keeps that of each. -/
theorem flatten (parts : List (List α)) : Interleaves parts parts.flatten := by
  induction parts with
  | nil => exact done fun part hpart ↦ absurd hpart List.not_mem_nil
  | cons part parts ih =>
    induction part with
    | nil => exact nil_cons ih
    | cons item rest ihPart => exact take [] ihPart

end Interleaves

/-- A place where work is shared out. -/
inductive Fork where
  /-- Among the segments of a configuration. -/
  | segments
  /-- Among the events, for the segment at a position. -/
  | events (segment : Nat)
  deriving DecidableEq

/-- In what order the lines of tasks come that do not wait for each other. -/
structure Schedule where
  /-- The log of some tasks, given that of each. -/
  merge : Fork → List (List Log.Entry) → List Log.Entry
  interleaves : ∀ fork parts, Interleaves parts (merge fork parts)

/-- The schedule of a single worker, who does one task after the other. -/
def Schedule.inTurn : Schedule := ⟨fun _ parts ↦ parts.flatten, fun _ ↦ Interleaves.flatten⟩

/-- Tasks that are shared out, with their results in the order of the tasks. -/
def Logged.together {α : Type} (schedule : Schedule) (fork : Fork) (tasks : List (Logged α)) :
    Logged (List α) :=
  ⟨schedule.merge fork (tasks.map Logged.entries), tasks.map Logged.value⟩

end Segmentation
