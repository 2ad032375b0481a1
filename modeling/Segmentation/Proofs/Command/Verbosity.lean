import Mathlib
import Segmentation.Command.Run
import Segmentation.Proofs.Command.LogOptions
import Segmentation.Proofs.Evaluation.Warnings
import Segmentation.Proofs.Report.Members

/-!
# The log decides nothing

A run looks at the arguments other than those for the log only (`perform_logged`). Two command lines
that are alike without options for the log therefore have the same output, the same exit code and
the same log, of which each shows what its level admits (`decidesAlike_of_sameButLog`). This is so
on any two hosts, except that the order of the log is that of the schedule where a run reports on
segments (`perform_eq_of_schedule`, `reordered_perform`). Together with the warnings, which no
evaluation looks at, this is `diagnostics_decide_nothing`.
-/

set_option autoImplicit false

namespace Segmentation.Command

variable {arguments : Arguments} (verbose : ℕ) (quiet : Bool)

/-! ### The run -/

theorem eventsLines_logged (filters : Option (List Filter)) (start : ℕ) (events : List Event) :
    eventsLines (arguments.logged verbose quiet) filters start events =
      eventsLines arguments filters start events := by
  induction events generalizing start with
  | nil => rfl
  | cons event rest ih =>
    have hlines : eventLines (arguments.logged verbose quiet) filters start event =
        eventLines arguments filters start event := rfl
    rw [eventsLines, hlines, ih]
    rfl

/-- A run does the same whatever is asked of the log. -/
theorem perform_logged (host : Host) (files : FileReader) :
    perform host (arguments.logged verbose quiet) files = perform host arguments files := by
  have hmatch : ∀ path, matchEvents (arguments.logged verbose quiet) files path =
      matchEvents arguments files path := by
    intro path
    simp only [matchEvents, eventsLines_logged]
    rfl
  unfold perform
  simp only [hmatch]
  rfl

/-! ### The host -/

/-- The run reports on segments, and so shares out its work. -/
def Arguments.Reports (arguments : Arguments) : Prop :=
  arguments.event = none ∧ arguments.config ≠ none

/-- Of the host a run sees nothing but the schedule, and this only if it reports on segments. -/
theorem perform_eq_of_schedule {host host' : Host}
    (h : host'.schedule = host.schedule ∨ ¬arguments.Reports) (files : FileReader) :
    perform host' arguments files = perform host arguments files := by
  unfold perform
  cases hevent : arguments.event with
  | some path => rfl
  | none =>
    cases hconfig : arguments.config with
    | none => rfl
    | some path =>
      have hschedule : host'.schedule = host.schedule :=
        h.resolve_right fun hnot ↦ hnot ⟨hevent, by simp [hconfig]⟩
      simp only [reportSegments, hschedule]

/-- On another host a run ends in the same way and logs the same lines, in whatever order. -/
theorem reordered_perform (host host' : Host) (arguments : Arguments) (files : FileReader) :
    Logged.Reordered (perform host arguments files).run (perform host' arguments files).run := by
  refine Attempt.reordered_bind (.refl _) fun _ ↦ Attempt.reordered_bind (.refl _) fun _ ↦ ?_
  cases arguments.event with
  | some path => exact .refl _
  | none =>
    cases arguments.config with
    | none => exact .refl _
    | some path =>
      refine Attempt.reordered_bind (.refl _) fun _ ↦ Attempt.reordered_bind (.refl _)
        fun configuration ↦ Attempt.reordered_bind (.refl _) fun _ ↦
        Attempt.reordered_bind (.refl _) fun events ↦ Attempt.reordered_bind (.refl _) fun _ ↦
        Attempt.reordered_bind ?_ fun _ ↦ .refl _
      have hreports := Report.reordered_ofSegments configuration.settings events host.schedule
        host'.schedule configuration.segments
      exact ⟨congrArg Except.ok hreports.value_eq, hreports.entries_perm⟩

/-! ### Requests -/

/-- The level at which the log of a request is kept. -/
def Request.level : Request → Log.Level
  | .run arguments => arguments.level
  | .version => .error
  | .help => .error

/-- The request asks for reports on segments. -/
def Request.Reports (request : Request) : Prop :=
  ∃ arguments, request = .run arguments ∧ arguments.Reports

/-- The lines of the log that a request shows. -/
def Request.shown (request : Request) (host : Host) (files : FileReader) : List Log.Entry :=
  match request with
  | .run arguments => Log.admitted arguments.level (perform host arguments files).run.entries
  | .version => []
  | .help => []

/-- What a request shows behind the log if it fails or breaks off. -/
def Request.closing (request : Request) (host : Host) (files : FileReader) : String :=
  match request with
  | .run arguments =>
    match (perform host arguments files).run.value with
    | .ok (some _) => ""
    | .ok none => brokenOffText host.mainThread
    | .error failure => failure.describe
  | .version => ""
  | .help => ""

/-- The second command, on a host of its own, does what the first does, and shows of its log what
the second level admits: under the same schedule in the same order, and without reports on segments
under every schedule. -/
structure DecidesAlike (files : FileReader) (host host' : Host) (words words' : List String)
    (request request' : Request) : Prop where
  output_eq : (execute host' words' files).output = (execute host words files).output
  exitCode_eq : (execute host' words' files).exitCode = (execute host words files).exitCode
  diagnostics_eq : (execute host words files).diagnostics =
    unlines ((request.shown host files).map Log.Entry.line) ++ request.closing host files
  diagnostics_eq' : (execute host' words' files).diagnostics =
    unlines ((request'.shown host' files).map Log.Entry.line) ++ request.closing host' files
  shown_eq : request'.level.rank ≤ request.level.rank →
    host'.schedule = host.schedule ∨ ¬request.Reports →
      request'.shown host' files =
        (request.shown host files).filter fun entry ↦ request'.level.admits entry.level
  shown_perm : request'.level.rank ≤ request.level.rank → (request'.shown host' files).Perm
    ((request.shown host files).filter fun entry ↦ request'.level.admits entry.level)

theorem execute_of_readArguments {words : List String} {request : Request}
    (h : readArguments words = .ok request) (host : Host) (files : FileReader) :
    (execute host words files).diagnostics =
      unlines ((request.shown host files).map Log.Entry.line) ++ request.closing host files := by
  rw [execute, h]
  cases request with
  | run arguments =>
    simp only [run, logText, Request.shown, Request.closing]
    rcases (perform host arguments files).run.value with failure | ⟨_ | output⟩
    · rfl
    · rfl
    · simp only [conclude, String.append_empty]
  | version => rfl
  | help => rfl

/-- Output and exit code depend on how a run ends only. -/
theorem conclude_eq_conclude (host host' : Host) (log log' : String)
    (value : Except Failure (Option String)) :
    (conclude host' log' value).output = (conclude host log value).output ∧
      (conclude host' log' value).exitCode = (conclude host log value).exitCode := by
  rcases value with failure | ⟨_ | output⟩ <;> exact ⟨rfl, rfl⟩

/-- Runs that differ in what they ask of the log do the same. -/
theorem exists_run_of_sameButLog {arguments : Arguments} {request : Request}
    (h : (Request.run arguments).SameButLog request) : ∃ arguments', request = .run arguments' ∧
      ∀ host files, perform host arguments' files = perform host arguments files := by
  cases request with
  | run arguments' =>
    refine ⟨arguments', rfl, fun host files ↦ ?_⟩
    rw [← perform_logged 0 false, ← Request.run.inj h, perform_logged]
  | version => exact absurd h (by simp [Request.SameButLog, Request.logged])
  | help => exact absurd h (by simp [Request.SameButLog, Request.logged])

theorem eq_of_sameButLog {request request' : Request} (h : request.SameButLog request')
    (hrun : ∀ arguments, request ≠ .run arguments) : request' = request := by
  cases request <;> cases request' <;> simp_all [Request.SameButLog, Request.logged]

/-- Requests that differ in what they ask of the log only are done alike. -/
theorem decidesAlike_of_sameButLog {words words' : List String} {request request' : Request}
    (h : readArguments words = .ok request) (h' : readArguments words' = .ok request')
    (hsame : request.SameButLog request') (files : FileReader) (host host' : Host) :
    DecidesAlike files host host' words words' request request' := by
  by_cases hrun : ∃ arguments, request = .run arguments
  · obtain ⟨arguments, rfl⟩ := hrun
    obtain ⟨arguments', rfl, hperform⟩ := exists_run_of_sameButLog hsame
    have hreordered := reordered_perform host host' arguments files
    have hends := conclude_eq_conclude host host'
      (logText arguments.level (perform host arguments files).run.entries)
      (logText arguments'.level (perform host' arguments files).run.entries)
      (perform host arguments files).run.value
    have hexecute : execute host words files = run host arguments files := by rw [execute, h]
    have hexecute' : execute host' words' files = conclude host'
        (logText arguments'.level (perform host' arguments files).run.entries)
        (perform host arguments files).run.value := by
      rw [execute, h', ← hreordered.value_eq, ← hperform]
      rfl
    refine ⟨?_, ?_, execute_of_readArguments h host files, ?_, fun hlevel horder ↦ ?_,
      fun hlevel ↦ ?_⟩
    · rw [hexecute, hexecute']
      exact hends.1
    · rw [hexecute, hexecute']
      exact hends.2
    · rw [execute_of_readArguments h' host' files]
      simp only [Request.closing, hperform]
    · have hnone : ¬(Request.run arguments).Reports → ¬arguments.Reports :=
        mt fun hreports ↦ ⟨arguments, rfl, hreports⟩
      simp only [Request.shown, hperform, perform_eq_of_schedule (horder.imp_right hnone)]
      exact (Log.admitted_admitted hlevel _).symm
    · simp only [Request.shown, hperform]
      have hadmitted := Log.admitted_admitted hlevel (perform host arguments files).run.entries
      refine (hreordered.entries_perm.filter _).trans (.of_eq ?_)
      exact hadmitted.symm
  · obtain rfl := eq_of_sameButLog hsame (not_exists.mp hrun)
    have hexecute : execute host' words' files = execute host words files := by
      rw [execute, execute, h, h']
      cases request' with
      | run arguments => exact absurd ⟨arguments, rfl⟩ hrun
      | version => rfl
      | help => rfl
    have hshown : ∀ host, request'.shown host files = [] := by
      cases request' with
      | run arguments => exact absurd ⟨arguments, rfl⟩ hrun
      | version => exact fun _ ↦ rfl
      | help => exact fun _ ↦ rfl
    refine ⟨by rw [hexecute], by rw [hexecute], execute_of_readArguments h host files,
      execute_of_readArguments h' host' files, fun _ _ ↦ ?_, fun _ ↦ ?_⟩
    · rw [hshown, hshown, List.filter_nil]
    · rw [hshown, hshown, List.filter_nil]

/-! ### Diagnostics -/

open Settings in
/-- What is shown on the log decides nothing.

The warnings about skipped filters change no evaluation, no verdict and no report. Without them the
log is the same but for the lines of level WARN, where reports share out their work in an order that
some schedule leads to. With them each filter that is looked at, if its condition is unknown, has
one warning, right before the line about its outcome.

Accepted command lines that differ in options for the log only have the same output and the same
exit code, on any two hosts, and of the same log each shows the lines that its level admits; under
one schedule, and without reports under any two, in the same order. Such options can be added to an
accepted command line in any number. -/
theorem diagnostics_decide_nothing (settings : Settings) (event : Event)
    (filters : Option (List Filter)) (files : FileReader) (host host' : Host)
    {words words' : List String} {request request' : Request}
    (h : readArguments words = .ok request) (h' : readArguments words' = .ok request')
    (hsame : muted words = muted words') :
    let loud := settings.warning true
    let quiet := settings.warning false
    let list := filters.getD []
    let lines := fun filter ↦ warningEntries filter ++ [settings.outcomeEntry event filter]
    (Silenced (loud.evaluate event filters) (quiet.evaluate event filters) ∧
        Silenced (loud.judge event filters) (quiet.judge event filters) ∧
        (loud.evaluate event filters).entries = (list.take
          (list.findIdx (fun filter ↦ !settings.satisfies event filter) + 1)).flatMap lines ∧
        (loud.judge event filters).entries = list.flatMap lines ∧
        ∀ schedule events segments, ∃ schedule',
          Silenced (Report.ofSegments schedule loud events segments)
            (Report.ofSegments schedule' quiet events segments)) ∧
      DecidesAlike files host host' words words' request request' ∧
      ∀ verbose quiet, ∃ more,
        readArguments (logOptions verbose quiet ++ muted words) = .ok more ∧
          more = request.logged (min verboseMax verbose) quiet ∧
          DecidesAlike files host host' words (logOptions verbose quiet ++ muted words) request
            more := by
  refine ⟨⟨settings.silenced_evaluate event filters, settings.silenced_judge event filters,
    settings.entries_evaluate_warning event filters, settings.entries_judge_warning event filters,
    fun schedule events segments ↦
      Report.exists_silenced_ofSegments schedule settings events segments⟩,
    decidesAlike_of_sameButLog h h' (sameButLog_of_muted_eq h h' hsame) files host host',
    fun verbose quiet ↦ ?_⟩
  have hmore := readArguments_logOptions verbose quiet h
  exact ⟨_, hmore, rfl,
    decidesAlike_of_sameButLog h hmore (sameButLog_logged _ _ request) files host host'⟩

/-- A run whose event file is missing, once with much of the log and once with errors only, on hosts
with different threads. The options are by themselves and bundled with that of the file; there is a
filter with an unknown condition besides. -/
theorem diagnostics_decide_nothing_missing :
    let files : FileReader := fun _ ↦ .error .notFound
    let host : Host := ⟨1, .inTurn⟩
    let host' : Host := ⟨2, .inTurn⟩
    let loud : Arguments := { event := some "events.json", verbose := 2 }
    let quiet : Arguments := { event := some "events.json", quiet := true }
    let filters : Option (List Filter) := some [⟨"p", .unknown "near", "x"⟩]
    readArguments ["-vv", "-e", "events.json"] = .ok (.run loud) ∧
      readArguments ["-qe", "events.json"] = .ok (.run quiet) ∧
      muted ["-vv", "-e", "events.json"] = muted ["-qe", "events.json"] ∧
      (execute host' ["-qe", "events.json"] files).output =
        (execute host ["-vv", "-e", "events.json"] files).output ∧
      (Request.run loud).shown host files ≠ [] ∧
      (Request.run quiet).shown host' files = ((Request.run loud).shown host files).filter
        (fun entry ↦ Log.Level.error.admits entry.level) ∧
      Silenced ((Settings.default.warning true).evaluate .empty filters)
        ((Settings.default.warning false).evaluate .empty filters) := by
  intro files host host' loud quiet filters
  have hloud : readArguments ["-vv", "-e", "events.json"] = .ok (.run loud) := by decide +kernel
  have hquiet : readArguments ["-qe", "events.json"] = .ok (.run quiet) := by decide +kernel
  have hsame : muted ["-vv", "-e", "events.json"] = muted ["-qe", "events.json"] := by
    decide +kernel
  obtain ⟨hwarnings, halike, -⟩ := diagnostics_decide_nothing Settings.default .empty filters files
    host host' hloud hquiet hsame
  exact ⟨hloud, hquiet, hsame, halike.output_eq, by decide +kernel,
    halike.shown_eq (by decide) (.inl rfl), hwarnings.1⟩

end Segmentation.Command
