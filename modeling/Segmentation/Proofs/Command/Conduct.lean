import Mathlib
import Segmentation.Command.Conduct
import Segmentation.Proofs.Attempt

/-!
# A run and its steps

`Command.run` computes the output of a run as a whole, `Command.conduct` writes it piece by piece
between the lines of the log. `Shows` collects what a conduct leaves behind that succeeds, and
`Follows` compares a conduct with an attempt that computes the same output: if the attempt fails or
breaks off, the conduct does nothing but log. Every step in which this can happen is a step of both,
so a run follows its attempt (`follows_conduct`), leaves behind the same (`run_eq_response`), and
writes nothing unless it is finished (`not_mem_actions_of_not_finished`).
-/

set_option autoImplicit false

namespace Segmentation

namespace Command

/-! ### Lines -/

theorem unlines_cons (line : String) (rest : List String) :
    unlines (line :: rest) = (line ++ "\n") ++ unlines rest := by
  rw [unlines, List.map_cons, String.join_cons]
  rfl

theorem unlines_append (first second : List String) :
    unlines (first ++ second) = unlines first ++ unlines second := by
  rw [unlines, List.map_append, String.join_append]
  rfl

end Command

namespace Conduct

variable {α β : Type} {conduct : Conduct α} {next : α → Conduct β} {a : α} {b : β}
  {log more : List Log.Entry} {output tail : String}

/-! ### What a conduct leaves behind -/

/-- The conduct succeeds with a result, logs some lines and writes an output. -/
structure Shows (conduct : Conduct α) (log : List Log.Entry) (output : String) (result : α) :
    Prop where
  value : conduct.run.value = .ok result
  log : conduct.run.actions.filterMap Action.entry? = log
  output : String.join (conduct.run.actions.filterMap Action.text?) = output

theorem run_bind_of_ok (h : conduct.run.value = .ok a) (next : α → Conduct β) :
    (conduct >>= next).run =
      ⟨conduct.run.actions ++ (next a).run.actions, (next a).run.value⟩ := by
  have hcont : (ExceptT.bindCont next (.ok a) : Acting (Except Failure β)) = (next a).run := rfl
  show (⟨conduct.run.actions ++ (ExceptT.bindCont next conduct.run.value).actions,
    (ExceptT.bindCont next conduct.run.value).value⟩ : Acting (Except Failure β)) = _
  rw [h, hcont]

theorem run_bind_of_error {failure : Failure} (h : conduct.run.value = .error failure)
    (next : α → Conduct β) : (conduct >>= next).run = ⟨conduct.run.actions, .error failure⟩ := by
  show (⟨conduct.run.actions ++ (ExceptT.bindCont next conduct.run.value).actions,
    (ExceptT.bindCont next conduct.run.value).value⟩ : Acting (Except Failure β)) = _
  rw [h]
  exact congrArg (Acting.mk · _) (List.append_nil _)

theorem shows_pure (a : α) : Shows (pure a) [] "" a := ⟨rfl, rfl, rfl⟩

theorem shows_write (text : String) : Shows (write text) [] text () :=
  ⟨rfl, rfl, String.empty_append⟩

theorem filterMap_log (entries : List Log.Entry) :
    (entries.map Action.log).filterMap Action.entry? = entries ∧
      (entries.map Action.log).filterMap Action.text? = [] := by
  simp [List.filterMap_map, Function.comp_def, Action.entry?, Action.text?]

/-- An attempt that succeeds only logs. -/
theorem shows_ofAttempt {attempt : Attempt α} (h : attempt.run.value = .ok a) :
    Shows (ofAttempt attempt) attempt.run.entries "" a := by
  refine ⟨h, (filterMap_log attempt.run.entries).1, ?_⟩
  show String.join ((attempt.run.entries.map Action.log).filterMap Action.text?) = ""
  rw [(filterMap_log attempt.run.entries).2]
  rfl

theorem shows_ofLogged (logged : Logged α) :
    Shows (ofAttempt (.ofLogged logged)) logged.entries "" logged.value :=
  shows_ofAttempt rfl

theorem Shows.congr {log' : List Log.Entry} {output' : String} (h : Shows conduct log output a)
    (hlog : log = log') (houtput : output = output') : Shows conduct log' output' a :=
  hlog ▸ houtput ▸ h

/-- One conduct after another logs and writes what both do. -/
theorem Shows.bind (h : Shows conduct log output a) (hnext : Shows (next a) more tail b) :
    Shows (conduct >>= next) (log ++ more) (output ++ tail) b := by
  obtain ⟨hvalue, hlog, houtput⟩ := h
  obtain ⟨hvalue', hlog', houtput'⟩ := hnext
  refine ⟨?_, ?_, ?_⟩
  · rw [run_bind_of_ok hvalue, hvalue']
  · rw [run_bind_of_ok hvalue, List.filterMap_append, hlog, hlog']
  · rw [run_bind_of_ok hvalue, List.filterMap_append, String.join_append, houtput, houtput']

theorem shows_writeLines (lines : List String) :
    Shows (writeLines lines) [] (Command.unlines lines) () := by
  induction lines with
  | nil => exact shows_pure ()
  | cons line rest ih =>
    rw [Command.unlines_cons]
    exact (shows_write (line ++ "\n")).bind ih

/-! ### Conducts that follow an attempt -/

/-- The conduct leaves behind what the attempt gives: it logs the same lines and writes the output,
or it breaks off or fails alike and does nothing but log. -/
inductive Follows (conduct : Conduct Command.Ending) (attempt : Attempt (Option String)) : Prop
  | success {output : String} (hattempt : attempt.run.value = .ok (some output))
    (hshows : Shows conduct attempt.run.entries output .finished)
  | breakOff (hattempt : attempt.run.value = .ok none)
    (hrun : conduct.run = ⟨attempt.run.entries.map Action.log, .ok .brokenOff⟩)
  | failure {failure : Failure} (hattempt : attempt.run.value = .error failure)
    (hrun : conduct.run = ⟨attempt.run.entries.map Action.log, .error failure⟩)

/-- Where a conduct only logs, so does one that first takes the steps of an attempt. -/
theorem run_ofAttempt_bind {γ : Type} {attempt : Attempt α} {next' : α → Attempt γ}
    {ending : Except Failure β} (h : attempt.run.value = .ok a)
    (hrun : (next a).run = ⟨(next' a).run.entries.map Action.log, ending⟩) :
    (ofAttempt attempt >>= next).run =
      ⟨(attempt >>= next').run.entries.map Action.log, ending⟩ := by
  have hvalue : (ofAttempt attempt).run.value = .ok a := h
  rw [run_bind_of_ok hvalue, hrun, Attempt.run_bind_of_ok h, List.map_append]
  rfl

/-- A step that both take leaves them together. -/
theorem Follows.bind {attempt : Attempt α} {next : α → Conduct Command.Ending}
    {next' : α → Attempt (Option String)}
    (hnext : ∀ a, attempt.run.value = .ok a → Follows (next a) (next' a)) :
    Follows (ofAttempt attempt >>= next) (attempt >>= next') := by
  cases h : attempt.run.value with
  | ok a =>
    -- Both have logged the same so far; how the rest ends is how the whole ends.
    cases hnext a h with
    | success hattempt hshows =>
      refine .success (Attempt.value_bind h |>.trans hattempt) ?_
      rw [Attempt.run_bind_of_ok h]
      have hboth := (shows_ofAttempt h).bind hshows
      rwa [String.empty_append] at hboth
    | breakOff hattempt hrun =>
      exact .breakOff (Attempt.value_bind h |>.trans hattempt) (run_ofAttempt_bind h hrun)
    | failure hattempt hrun =>
      exact .failure (Attempt.value_bind h |>.trans hattempt) (run_ofAttempt_bind h hrun)
  | error failure =>
    have hrun := Attempt.run_bind_of_error h next'
    have hvalue : (ofAttempt attempt).run.value = .error failure := h
    refine .failure (by rw [hrun]) ?_
    rw [run_bind_of_error hvalue, hrun]
    rfl

end Conduct

namespace Command

open Conduct (Shows Follows shows_pure shows_write shows_writeLines shows_ofLogged shows_ofAttempt
  run_ofAttempt_bind)

variable {host : Host} {arguments : Arguments} {files : FileReader}

/-! ### The steps of a run -/

/-- The lines about an event are shown after the event has been looked at. -/
theorem shows_showEvent (arguments : Arguments) (filters : Option (List Filter)) (index : ℕ)
    (event : Event) : Shows (showEvent arguments filters index event)
      (eventLines arguments filters index event).entries
      (unlines (eventLines arguments filters index event).value.2)
      (eventLines arguments filters index event).value.1 := by
  unfold showEvent eventLines
  cases arguments.explain with
  | true =>
    simp only [if_true, Logged.entries_bind, Logged.entries_pure, Logged.value_bind,
      Logged.value_pure, unlines_cons]
    refine Shows.congr (Shows.bind (shows_ofLogged _) (Shows.bind (shows_write _)
      (Shows.bind (shows_writeLines _) (shows_pure _)))) ?_ ?_
    · simp
    · simp
  | false =>
    simp only [Bool.false_eq_true, if_false, Logged.entries_bind, Logged.entries_pure,
      Logged.value_bind, Logged.value_pure, unlines_cons]
    refine Shows.congr (Shows.bind (shows_ofLogged _)
      (Shows.bind (shows_write _) (shows_pure _))) ?_ ?_
    · simp
    · simp [unlines, String.join_nil]

/-- The verdicts on some events are shown one after the other. -/
theorem shows_showEvents (arguments : Arguments) (filters : Option (List Filter)) (start : ℕ)
    (events : List Event) : Shows (showEvents arguments filters start events)
      (eventsLines arguments filters start events).entries
      (unlines (eventsLines arguments filters start events).value.2)
      (eventsLines arguments filters start events).value.1 := by
  induction events generalizing start with
  | nil => exact shows_pure 0
  | cons event rest ih =>
    simp only [showEvents, eventsLines, Logged.entries_bind, Logged.entries_pure,
      Logged.value_bind, Logged.value_pure, unlines_append]
    refine Shows.congr (Shows.bind (shows_showEvent _ _ _ _)
      (Shows.bind (ih (start + 1)) (shows_pure _))) ?_ ?_
    · simp
    · simp

/-- Writing an output and being finished. -/
theorem shows_write_finished (output : String) :
    Shows (do Conduct.write output; return Ending.finished) [] output .finished :=
  (Shows.bind (shows_write output) (shows_pure Ending.finished)).congr rfl String.append_empty

/-- The verdicts are shown and counted as they are computed. -/
theorem follows_showMatches (arguments : Arguments) (files : FileReader) (path : String) :
    Follows (showMatches arguments files path)
      (do return some (← matchEvents arguments files path)) := by
  unfold matchEvents
  simp only [bind_assoc]
  refine Follows.bind fun events _ ↦ Follows.bind fun filters _ ↦ .success rfl ?_
  refine Shows.congr (Shows.bind (shows_showEvents _ _ _ _)
    (Shows.bind (shows_ofAttempt rfl) (shows_pure _))) rfl ?_
  simp

/-- The reports are shown once they can be written. -/
theorem follows_showReports (host : Host) (files : FileReader) (path : String) :
    Follows (showReports host files path) (reportSegments host files path) := by
  have hsame : reportSegments host files path >>= pure = reportSegments host files path :=
    bind_pure _
  rw [← hsame]
  refine Follows.bind fun rendered _ ↦ ?_
  cases rendered with
  | some output => exact .success rfl (shows_write_finished output)
  | none => exact .breakOff rfl rfl

/-- All that a run does is what its attempt gives. -/
theorem follows_conduct (host : Host) (arguments : Arguments) (files : FileReader) :
    Follows (conduct host arguments files) (perform host arguments files) := by
  refine Follows.bind fun _ _ ↦ Follows.bind fun _ _ ↦ ?_
  cases arguments.event with
  | some path => exact follows_showMatches arguments files path
  | none =>
    cases arguments.config with
    | some path => exact follows_showReports host files path
    | none => exact .success rfl (shows_write_finished hint)

/-- A run leaves behind what its steps do. -/
theorem run_eq_response (host : Host) (arguments : Arguments) (files : FileReader) :
    run host arguments files =
      response host arguments.level (conduct host arguments files) := by
  unfold run response
  cases follows_conduct host arguments files with
  | success hattempt hshows =>
    simp only [hattempt, hshows.value, hshows.log, hshows.output, conclude]
  | breakOff hattempt hrun =>
    simp only [hattempt, hrun, (Conduct.filterMap_log _).1, (Conduct.filterMap_log _).2]
    rfl
  | failure hattempt hrun =>
    simp only [hattempt, hrun, (Conduct.filterMap_log _).1, (Conduct.filterMap_log _).2]
    rfl

/-- A run that is not finished writes nothing on its way. -/
theorem not_mem_actions_of_not_finished
    (h : (conduct host arguments files).run.value ≠ .ok .finished) (text : String) :
    Action.write text ∉ (conduct host arguments files).run.actions := by
  cases follows_conduct host arguments files with
  | success hattempt hshows => exact absurd hshows.value h
  | breakOff hattempt hrun =>
    rw [hrun]
    simp
  | failure hattempt hrun =>
    rw [hrun]
    simp

end Command

end Segmentation
