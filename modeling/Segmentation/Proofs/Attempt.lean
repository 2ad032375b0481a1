import Mathlib
import Segmentation.Failure

/-!
# Attempts in a row

What an attempt and another one after it log and give. `run_bind_of_ok` and `run_bind_of_error` are
the two ways in which the first one can end; `value_bind_eq_ok_iff` is what it takes for both to
succeed, and `Yields` follows the log of attempts that do.
-/

set_option autoImplicit false

namespace Segmentation.Attempt

variable {α β : Type} {attempt : Attempt α} {next : α → Attempt β} {log more : List Log.Entry}
  {a : α} {b : β} {failure : Failure}

/-! ### The two ways to go on -/

theorem run_bind_of_ok (h : attempt.run.value = .ok a) (next : α → Attempt β) :
    (attempt >>= next).run =
      ⟨attempt.run.entries ++ (next a).run.entries, (next a).run.value⟩ := by
  have hcont : (ExceptT.bindCont next (.ok a) : Logged (Except Failure β)) = (next a).run := rfl
  show (⟨attempt.run.entries ++ (ExceptT.bindCont next attempt.run.value).entries,
    (ExceptT.bindCont next attempt.run.value).value⟩ : Logged (Except Failure β)) = _
  rw [h, hcont]

/-- Nothing follows an attempt that fails. -/
theorem run_bind_of_error (h : attempt.run.value = .error failure) (next : α → Attempt β) :
    (attempt >>= next).run = ⟨attempt.run.entries, .error failure⟩ := by
  show (⟨attempt.run.entries ++ (ExceptT.bindCont next attempt.run.value).entries,
    (ExceptT.bindCont next attempt.run.value).value⟩ : Logged (Except Failure β)) = _
  rw [h]
  exact congrArg (Logged.mk · _) (List.append_nil _)

/-! ### Results -/

/-- What follows an attempt that succeeds decides the result. -/
theorem value_bind (h : attempt.run.value = .ok a) :
    (attempt >>= next).run.value = (next a).run.value := by
  rw [run_bind_of_ok h]

/-- Two attempts in a row succeed if both do. -/
theorem value_bind_eq_ok_iff : (attempt >>= next).run.value = .ok b ↔
    ∃ a, attempt.run.value = .ok a ∧ (next a).run.value = .ok b := by
  cases h : attempt.run.value with
  | error failure => simp [run_bind_of_error h]
  | ok a => simp [run_bind_of_ok h]

theorem exists_value_bind_iff : (∃ b, (attempt >>= next).run.value = .ok b) ↔
    ∃ a, attempt.run.value = .ok a ∧ ∃ b, (next a).run.value = .ok b := by
  simp only [value_bind_eq_ok_iff]
  rw [exists_comm]
  simp only [exists_and_left]

/-! ### Logs -/

/-- The attempt succeeds with this log and this result. -/
def Yields (attempt : Attempt α) (log : List Log.Entry) (result : α) : Prop :=
  attempt.run = ⟨log, .ok result⟩

theorem yields_pure (a : α) : Yields (pure a) [] a := rfl

theorem yields_ofLogged (logged : Logged α) :
    Yields (ofLogged logged) logged.entries logged.value := rfl

theorem yields_log (level : Log.Level) (source : Log.Source) (text : String) :
    Yields (Attempt.log level source text) [⟨level, source, text⟩] () := rfl

/-- An attempt with a result succeeds with some log. -/
theorem yields_of_value (h : attempt.run.value = .ok a) : Yields attempt attempt.run.entries a := by
  rw [Yields, ← h]

/-- One attempt after another succeeds if both do, and logs what both log. -/
theorem Yields.bind (h : Yields attempt log a) (hnext : Yields (next a) more b) :
    Yields (attempt >>= next) (log ++ more) b := by
  have hvalue : attempt.run.value = .ok a := by rw [h]
  rw [Yields, run_bind_of_ok hvalue, h, hnext]

end Segmentation.Attempt
