/-!
Log lines, and computations that write them. A computation's log is part of its result, so what is
logged can be compared like any other value. A quieter level admits only the more serious lines.
-/

set_option autoImplicit false

namespace Segmentation

inductive Log.Level where
  | error
  | warn
  | info
  | debug
  | trace
  deriving DecidableEq

/-- The part of the program that a line comes from. -/
inductive Log.Source where
  | command
  | configuration
  | input
  | report
  | evaluator
  deriving DecidableEq

/-- A line of the log. -/
structure Log.Entry where
  level : Log.Level
  source : Log.Source
  text : String
  deriving DecidableEq

namespace Log

namespace Level

def name : Level → String
  | .error => "ERROR"
  | .warn => "WARN"
  | .info => "INFO"
  | .debug => "DEBUG"
  | .trace => "TRACE"

/-- How much a level lets through. -/
def rank : Level → Nat
  | .error => 1
  | .warn => 2
  | .info => 3
  | .debug => 4
  | .trace => 5

/-- Whether a log kept at this level has lines of another level. -/
def admits (kept level : Level) : Bool := level.rank ≤ kept.rank

end Level

/-- The name under which a source appears in the log. -/
def Source.name : Source → String
  | .command => "segment_filter_cli"
  | .configuration => "segment_filter_cli::config"
  | .input => "segment_filter_cli::input"
  | .report => "segment_filter_cli::report"
  | .evaluator => "segment_filter::evaluator"

/-- A line as it is written. -/
def Entry.line (entry : Entry) : String :=
  "[" ++ entry.level.name ++ " " ++ entry.source.name ++ "] " ++ entry.text

/-- The lines that a level admits, in their order. -/
def admitted (kept : Level) (entries : List Entry) : List Entry :=
  entries.filter fun entry ↦ kept.admits entry.level

end Log

/-- A quieter log is what the quieter level admits of a louder one. -/
theorem Log.admitted_admitted {quiet loud : Log.Level} (h : quiet.rank ≤ loud.rank)
    (entries : List Log.Entry) :
    Log.admitted quiet (Log.admitted loud entries) = Log.admitted quiet entries := by
  simp only [Log.admitted, List.filter_filter, Log.Level.admits]
  congr 1
  funext entry
  simp only [Bool.and_eq_left_iff_imp, decide_eq_true_eq]
  omega

/-- A result together with the lines logged on the way to it. -/
structure Logged (α : Type) where
  entries : List Log.Entry
  value : α

namespace Logged

variable {α β : Type}

/-- The computation that logs one line. -/
def log (level : Log.Level) (source : Log.Source) (text : String) : Logged Unit :=
  ⟨[⟨level, source, text⟩], ()⟩

instance : Monad Logged where
  pure value := ⟨[], value⟩
  bind first next :=
    let second := next first.value
    ⟨first.entries ++ second.entries, second.value⟩

@[simp] theorem entries_pure (value : α) : (pure value : Logged α).entries = [] := rfl

@[simp] theorem value_pure (value : α) : (pure value : Logged α).value = value := rfl

@[simp] theorem entries_bind (first : Logged α) (next : α → Logged β) :
    (first >>= next).entries = first.entries ++ (next first.value).entries := rfl

@[simp] theorem value_bind (first : Logged α) (next : α → Logged β) :
    (first >>= next).value = (next first.value).value := rfl

instance : LawfulMonad Logged :=
  .mk' _ (fun logged ↦ congrArg (Logged.mk · logged.value) (List.append_nil logged.entries))
    (fun _ _ ↦ rfl)
    (fun _ _ _ ↦ congrArg (Logged.mk · _) (List.append_assoc _ _ _))

end Logged

end Segmentation
