import Mathlib
import Segmentation.Failure
import Segmentation.Schedule

/-!
# What a schedule can change

Under every schedule the same lines are logged, and lines that are left out of the parts are left
out of the whole (`Interleaves.perm`, `Interleaves.filter`). `Reordered` relates a computation to
one that gives the same result and logs the same lines, in whatever order. It passes along binds and
through tasks that are shared out, so the schedule decides about the order of the log and about
nothing else.
-/

set_option autoImplicit false

namespace Segmentation

namespace Interleaves

variable {α : Type} {parts : List (List α)} {whole : List α}

/-- Every item of every part has its place, and there are no others. -/
theorem perm (h : Interleaves parts whole) : whole.Perm parts.flatten := by
  induction h with
  | done h => rw [List.flatten_eq_nil_iff.mpr h]
  | @take before after item rest whole _ ih =>
    have hfront : (before ++ (item :: rest) :: after).flatten =
        before.flatten ++ item :: (rest ++ after.flatten) := by
      simp only [List.flatten_append, List.flatten_cons, List.cons_append]
    rw [List.flatten_append, List.flatten_cons] at ih
    rw [hfront]
    exact (ih.cons item).trans List.perm_middle.symm

/-- What some items are left out of is in an order that keeps what is left of each part. -/
theorem filter (h : Interleaves parts whole) (keep : α → Bool) :
    Interleaves (parts.map (List.filter keep)) (whole.filter keep) := by
  induction h with
  | done h =>
    refine done fun part hpart ↦ ?_
    obtain ⟨whole, hwhole, rfl⟩ := List.mem_map.mp hpart
    rw [h whole hwhole, List.filter_nil]
  | @take before after item rest whole _ ih =>
    rw [List.map_append, List.map_cons] at ih ⊢
    cases hitem : keep item with
    | true =>
      rw [List.filter_cons_of_pos hitem, List.filter_cons_of_pos hitem]
      exact take _ ih
    | false =>
      have hdropped : ¬keep item = true := by simp [hitem]
      rw [List.filter_cons_of_neg hdropped, List.filter_cons_of_neg hdropped]
      exact ih

end Interleaves

namespace Logged

variable {α β : Type}

@[simp] theorem value_together (schedule : Schedule) (fork : Fork) (tasks : List (Logged α)) :
    (together schedule fork tasks).value = tasks.map value := rfl

@[simp] theorem entries_together (schedule : Schedule) (fork : Fork) (tasks : List (Logged α)) :
    (together schedule fork tasks).entries = schedule.merge fork (tasks.map entries) := rfl

/-- The second computation gives the same result as the first and logs the same lines, in whatever
order. -/
structure Reordered (first second : Logged α) : Prop where
  value_eq : second.value = first.value
  entries_perm : second.entries.Perm first.entries

namespace Reordered

variable {first second : Logged α}

theorem refl (logged : Logged α) : Reordered logged logged := ⟨rfl, .refl _⟩

theorem bind {next next' : α → Logged β} (h : Reordered first second)
    (hnext : ∀ a, Reordered (next a) (next' a)) :
    Reordered (first >>= next) (second >>= next') := by
  refine ⟨?_, ?_⟩
  · rw [value_bind, value_bind, h.value_eq, (hnext first.value).value_eq]
  · rw [entries_bind, entries_bind, h.value_eq]
    exact h.entries_perm.append (hnext first.value).entries_perm

/-- The results of tasks do not depend on who does them when, nor do their lines. -/
theorem together {tasks tasks' : List (Logged α)} (h : List.Forall₂ Reordered tasks tasks')
    (schedule schedule' : Schedule) (fork : Fork) :
    Reordered (together schedule fork tasks) (together schedule' fork tasks') := by
  obtain ⟨hvalues, hparts⟩ : tasks'.map value = tasks.map value ∧
      (tasks'.map entries).flatten.Perm (tasks.map entries).flatten := by
    induction h with
    | nil => exact ⟨rfl, .refl _⟩
    | cons htask _ ih =>
      exact ⟨congrArg₂ List.cons htask.value_eq ih.1, htask.entries_perm.append ih.2⟩
  refine ⟨hvalues, ?_⟩
  rw [entries_together, entries_together]
  exact ((schedule'.interleaves fork _).perm.trans hparts).trans
    (schedule.interleaves fork _).perm.symm

end Reordered

end Logged

namespace Attempt

variable {α β : Type}

/-- Of attempts in a row the lines of each may be reordered. -/
theorem reordered_bind {attempt attempt' : Attempt α} {next next' : α → Attempt β}
    (h : Logged.Reordered attempt.run attempt'.run)
    (hnext : ∀ a, Logged.Reordered (next a).run (next' a).run) :
    Logged.Reordered (attempt >>= next).run (attempt' >>= next').run := by
  refine Logged.Reordered.bind h fun result ↦ ?_
  cases result with
  | ok a => exact hnext a
  | error failure => exact .refl _

end Attempt

end Segmentation
