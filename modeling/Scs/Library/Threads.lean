import Scs.Library.Runs
import Mathlib.Algebra.BigOperators.Group.Multiset.Basic

/-!
# Interleaved tasks over shared memory

A pool is a shared state and the tasks that have not ended. One move takes one
task, in any order, and puts what the task becomes back: nothing when it ends,
several tasks when it splits. The rules here carry invariants through every
interleaving, add tasks that do not move, tally them, and bound the length of a run.
-/

namespace Threads

set_option autoImplicit false

open Runs

variable {Shared Task : Type*}

structure Pool (Shared Task : Type*) where
  shared : Shared
  tasks : Multiset Task

def Pool.Finished (pool : Pool Shared Task) : Prop := pool.tasks = 0

abbrev Moves (Shared Task : Type*) := Shared → Task → Shared → Multiset Task → Prop

inductive Step (moves : Moves Shared Task) : Pool Shared Task → Task → Pool Shared Task → Prop
  | move {shared after : Shared} {task : Task} {left : Multiset Task} (rest : Multiset Task)
      (moved : moves shared task after left) :
      Step moves ⟨shared, task ::ₘ rest⟩ task ⟨after, left + rest⟩

variable {moves : Moves Shared Task} {start final : Pool Shared Task} {labels : List Task}

theorem run_frame (run : Run (Step moves) start labels final) (rest : Multiset Task) :
    Run (Step moves) ⟨start.shared, start.tasks + rest⟩ labels
      ⟨final.shared, final.tasks + rest⟩ := by
  induction run with
  | nil pool => exact .nil _
  | cons first _ induction =>
      cases first with
      | @move shared after task left others moved =>
          rw [Multiset.cons_add]
          apply Run.cons (.move (others + rest) moved)
          rw [← add_assoc]
          exact induction

/-! ## Tallies -/

section Tally

variable (weight : Task → ℕ)

def tally (tasks : Multiset Task) : ℕ := (tasks.map weight).sum

@[simp] theorem tally_zero : tally weight (0 : Multiset Task) = 0 := rfl

@[simp] theorem tally_cons (task : Task) (rest : Multiset Task) :
    tally weight (task ::ₘ rest) = weight task + tally weight rest := by
  simp only [tally, Multiset.map_cons, Multiset.sum_cons]

@[simp] theorem tally_add (left rest : Multiset Task) :
    tally weight (left + rest) = tally weight left + tally weight rest := by
  simp only [tally, Multiset.map_add, Multiset.sum_add]

@[simp] theorem tally_singleton (task : Task) : tally weight {task} = weight task := by
  simp only [tally, Multiset.map_singleton, Multiset.sum_singleton]

variable {weight}

theorem tally_le {heavier : Task → ℕ} (less : ∀ task, weight task ≤ heavier task)
    (tasks : Multiset Task) : tally weight tasks ≤ tally heavier tasks := by
  induction tasks using Multiset.induction_on with
  | empty => exact Nat.le_refl _
  | cons task rest induction =>
      rw [tally_cons, tally_cons]
      exact Nat.add_le_add (less task) induction

end Tally

/-! ## Invariants -/

/-- What every move keeps of the shared state and of the moving task holds of
every interleaving. -/
theorem run_kept (shared_ok : Shared → Prop) (task_ok : Task → Prop)
    (kept : ∀ shared task after left, shared_ok shared → task_ok task →
      moves shared task after left → shared_ok after ∧ ∀ other ∈ left, task_ok other)
    (run : Run (Step moves) start labels final)
    (initial : shared_ok start.shared ∧ ∀ task ∈ start.tasks, task_ok task) :
    shared_ok final.shared ∧ ∀ task ∈ final.tasks, task_ok task := by
  apply run_invariant (fun pool => shared_ok pool.shared ∧ ∀ task ∈ pool.tasks, task_ok task)
    _ initial run
  intro pool label next ⟨sharedHolds, tasksHold⟩ step
  cases step with
  | move rest moved =>
      rw [Multiset.forall_mem_cons] at tasksHold
      obtain ⟨after, leftHold⟩ := kept _ _ _ _ sharedHolds tasksHold.1 moved
      refine ⟨after, ?_⟩
      intro other member
      rcases Multiset.mem_add.mp member with spawned | untouched
      · exact leftHold other spawned
      · exact tasksHold.2 other untouched

/-! ## Termination -/

section Weight

variable (weight : Task → ℕ)

def Pool.load (pool : Pool Shared Task) : ℕ := (pool.tasks.map weight).sum

variable {weight}

theorem run_bounded
    (lighter : ∀ shared task after left, moves shared task after left →
      (left.map weight).sum < weight task)
    (run : Run (Step moves) start labels final) :
    labels.length + final.load weight ≤ start.load weight := by
  induction run with
  | nil pool => exact (Nat.zero_add _).le
  | cons first _ induction =>
      cases first with
      | @move shared after task left rest moved =>
          have less := lighter _ _ _ _ moved
          simp only [Pool.load, Multiset.map_cons, Multiset.sum_cons, Multiset.map_add,
            Multiset.sum_add, List.length_cons] at induction ⊢
          omega

/-- When every task can always move, every pool runs to its end. -/
theorem run_finishes
    (lighter : ∀ shared task after left, moves shared task after left →
      (left.map weight).sum < weight task)
    (progress : ∀ shared task, ∃ after left, moves shared task after left)
    (pool : Pool Shared Task) :
    ∃ labels final, Run (Step moves) pool labels final ∧ final.Finished := by
  induction size : pool.load weight using Nat.strong_induction_on generalizing pool with
  | _ size induction =>
      obtain ⟨shared, tasks⟩ := pool
      induction tasks using Multiset.induction_on with
      | empty => exact ⟨[], _, .nil _, rfl⟩
      | cons task rest _ =>
          obtain ⟨after, left, moved⟩ := progress shared task
          have step : Step moves ⟨shared, task ::ₘ rest⟩ task ⟨after, left + rest⟩ :=
            .move rest moved
          have shorter := run_bounded lighter (.cons step (.nil _))
          rw [List.length_singleton, size] at shorter
          obtain ⟨labels, final, run, finished⟩ :=
            induction _ (Nat.lt_of_lt_of_le (by omega) shorter) ⟨after, left + rest⟩ rfl
          exact ⟨task :: labels, final, .cons step run, finished⟩

end Weight

end Threads
