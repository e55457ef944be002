import Scs.Library.Threads
import Scs.Xdr.Transaction
import Mathlib.Algebra.BigOperators.Intervals

/-!
# Validating a block in parallel (`vm/validate_reduce.h`)

`validate_tx_block` reduces over the entries of a block. Each range runs the
body below; the ranges share one atomic flag, which a body reads once when it
starts and reads and writes in two separate steps when it ends.
-/

namespace Scs

set_option autoImplicit false

open Runs Threads

/-- What the execution context reports, for the position of each entry and of
each of its nondeterministic results. -/
abbrev Reports := ℕ → ℕ → TransactionStatus

inductive RangeTask where
  | waiting (begin last : ℕ)
  | looping (i j last : ℕ) (localFoundError : Bool)
  | loading (localFoundError : Bool)
  | storing (value : Bool)
  deriving DecidableEq, Repr

section Reduce

variable {SignedTransaction NondeterministicResults : Type*}

def Block.resultCount (block : Block SignedTransaction NondeterministicResults) (i : ℕ) : ℕ :=
  match block.transactions[i]? with
  | some entry => entry.nondeterministicResults.length
  | none => 0

variable (block : Block SignedTransaction NondeterministicResults) (reports : Reports)

/-- One step of `operator()`; no task is left when it returns. -/
def RangeTask.advance (foundError : Bool) : RangeTask → Bool × Option RangeTask
  | .waiting begin last =>
      if foundError then (foundError, none)
      else (foundError, some (.looping begin 0 last false))
  | .looping i j last localFoundError =>
      if i < last then
        if j < block.resultCount i then
          if reports i j ≠ .success then (foundError, some (.looping (i + 1) 0 last true))
          else (foundError, some (.looping i (j + 1) last localFoundError))
        else (foundError, some (.looping (i + 1) 0 last localFoundError))
      else (foundError, some (.loading localFoundError))
  | .loading localFoundError => (foundError, some (.storing (foundError || localFoundError)))
  | .storing value => (value, none)

/-- A range that has not begun may still be split in two; `join` does nothing. -/
inductive RangeMoves : Threads.Moves Bool RangeTask
  | split (foundError : Bool) {begin middle last : ℕ} (left : begin < middle)
      (right : middle < last) :
      RangeMoves foundError (.waiting begin last) foundError
        {.waiting begin middle, .waiting middle last}
  | advance (foundError : Bool) (task : RangeTask) :
      RangeMoves foundError task (task.advance block reports foundError).1
        ((task.advance block reports foundError).2.elim 0 fun next => {next})

/-- The reduction over the whole block; an empty range is never run. -/
def Block.reduction (block : Block SignedTransaction NondeterministicResults) :
    Pool Bool RangeTask where
  shared := false
  tasks := if block.transactions.length = 0 then 0 else {.waiting 0 block.transactions.length}

/-- What `validate_tx_block` returns when every range has returned. -/
def validated (pool : Pool Bool RangeTask) : Bool := !pool.shared

def EntryFails (i : ℕ) : Prop :=
  ∃ j, j < block.resultCount i ∧ reports i j ≠ .success

/-- The execution context reports success for every pair of the block. -/
def AllSucceed : Prop :=
  ∀ i < block.transactions.length, ¬ EntryFails block reports i

/-- In every schedule the reduction ends, and it validates the block exactly when
all executions succeed. -/
structure Exact : Prop where
  bounded : ∃ bound, ∀ labels pool,
    Run (Threads.Step (RangeMoves block reports)) block.reduction labels pool →
      labels.length ≤ bound
  finishes : ∀ labels pool,
    Run (Threads.Step (RangeMoves block reports)) block.reduction labels pool →
      pool.Finished ∨ ∃ label next, Threads.Step (RangeMoves block reports) pool label next
  answer : ∀ labels pool,
    Run (Threads.Step (RangeMoves block reports)) block.reduction labels pool →
      pool.Finished → (validated pool = true ↔ AllSucceed block reports)

/-! ## Every schedule ends -/

def loopWork (i j last : ℕ) : ℕ :=
  if i < last then
    block.resultCount i - j + 1 + ∑ k ∈ Finset.Ico (i + 1) last, (block.resultCount k + 1)
  else 0

def RangeTask.weight : RangeTask → ℕ
  | .waiting begin last =>
      if begin < last then loopWork block begin 0 last + (8 * (last - begin) - 4) else 4
  | .looping i j last _ => loopWork block i j last + 3
  | .loading _ => 2
  | .storing _ => 1

theorem loop_work_start (begin last : ℕ) :
    loopWork block begin 0 last = ∑ k ∈ Finset.Ico begin last, (block.resultCount k + 1) := by
  unfold loopWork
  split_ifs with inside
  · rw [Finset.sum_eq_sum_Ico_succ_bot inside, Nat.sub_zero]
  · rw [Finset.Ico_eq_empty_of_le (Nat.not_lt.mp inside), Finset.sum_empty]

theorem loop_work_next {i last : ℕ} (inside : i < last) (j : ℕ) :
    loopWork block (i + 1) 0 last < loopWork block i j last := by
  rw [loop_work_start, loopWork, if_pos inside]
  omega

theorem loop_work_step {i j last : ℕ} (inside : i < last) (pending : j < block.resultCount i) :
    loopWork block i (j + 1) last < loopWork block i j last := by
  unfold loopWork
  rw [if_pos inside, if_pos inside]
  omega

variable {block reports}

theorem moves_lighter (foundError : Bool) (task : RangeTask) (after : Bool)
    (left : Multiset RangeTask) (moved : RangeMoves block reports foundError task after left) :
    (left.map (RangeTask.weight block)).sum < task.weight block := by
  cases moved with
  | @split _ begin middle last first second =>
      have joined := Finset.sum_Ico_consecutive (fun k => block.resultCount k + 1)
        (Nat.le_of_lt first) (Nat.le_of_lt second)
      have whole := Nat.lt_trans first second
      simp only [Multiset.insert_eq_cons, Multiset.map_cons, Multiset.map_singleton,
        Multiset.sum_cons, Multiset.sum_singleton, RangeTask.weight, if_pos first, if_pos second,
        if_pos whole, loop_work_start]
      omega
  | advance =>
      cases task with
      | waiting begin last =>
          cases foundError with
          | true =>
              simp only [RangeTask.advance, RangeTask.weight, if_true, Option.elim,
                Multiset.map_zero, Multiset.sum_zero]
              split_ifs <;> omega
          | false =>
              have work := loop_work_start block begin last
              simp only [RangeTask.advance, RangeTask.weight, Bool.false_eq_true, if_false,
                Option.elim, Multiset.map_singleton, Multiset.sum_singleton]
              split_ifs with inside
              · omega
              · unfold loopWork
                rw [if_neg inside]
                omega
      | looping i j last localFoundError =>
          simp only [RangeTask.advance]
          split_ifs with inside pending failed
          · have less := loop_work_next block inside j
            simp only [RangeTask.weight, Option.elim, Multiset.map_singleton,
              Multiset.sum_singleton]
            omega
          · have less := loop_work_step block inside pending
            simp only [RangeTask.weight, Option.elim, Multiset.map_singleton,
              Multiset.sum_singleton]
            omega
          · have less := loop_work_next block inside j
            simp only [RangeTask.weight, Option.elim, Multiset.map_singleton,
              Multiset.sum_singleton]
            omega
          · simp only [RangeTask.weight, Option.elim, Multiset.map_singleton,
              Multiset.sum_singleton]
            omega
      | loading localFoundError =>
          simp only [RangeTask.advance, RangeTask.weight, Option.elim, Multiset.map_singleton,
            Multiset.sum_singleton]
          omega
      | storing value => exact Nat.zero_lt_one

theorem moves_progress (foundError : Bool) (task : RangeTask) :
    ∃ after left, RangeMoves block reports foundError task after left :=
  ⟨_, _, .advance foundError task⟩

/-! ## No entry fails -/

def RangeTask.Quiet : RangeTask → Prop
  | .waiting _ _ => True
  | .looping _ _ _ localFoundError => localFoundError = false
  | .loading localFoundError => localFoundError = false
  | .storing value => value = false

theorem quiet_moves (none_fails : ∀ i, ¬ EntryFails block reports i) (foundError : Bool)
    (task : RangeTask) (after : Bool) (left : Multiset RangeTask) (unset : foundError = false)
    (quiet : task.Quiet) (moved : RangeMoves block reports foundError task after left) :
    after = false ∧ ∀ other ∈ left, other.Quiet := by
  subst unset
  cases moved with
  | split =>
      refine ⟨rfl, fun other member => ?_⟩
      rcases Multiset.mem_cons.mp member with rfl | member
      · trivial
      · rw [Multiset.mem_singleton.mp member]
        trivial
  | advance =>
      cases task with
      | waiting begin last =>
          refine ⟨rfl, fun other member => ?_⟩
          rw [Multiset.mem_singleton.mp member]
          rfl
      | looping i j last localFoundError =>
          simp only [RangeTask.advance]
          split_ifs with inside pending failed
          · exact absurd ⟨j, pending, failed⟩ (none_fails i)
          all_goals
            refine ⟨rfl, fun other member => ?_⟩
            rw [Multiset.mem_singleton.mp member]
            exact quiet
      | loading localFoundError =>
          refine ⟨rfl, fun other member => ?_⟩
          rw [Multiset.mem_singleton.mp member]
          exact quiet
      | storing value => exact ⟨quiet, fun other member => absurd member (Multiset.notMem_zero _)⟩

/-! ## Every entry fails -/

def RangeTask.Doomed (block : Block SignedTransaction NondeterministicResults) (reports : Reports) :
    RangeTask → Prop
  | .waiting begin last => begin < last ∧ last ≤ block.transactions.length
  | .looping i j last localFoundError =>
      last ≤ block.transactions.length ∧
        (localFoundError = true ∨
          i < last ∧ ∃ k, j ≤ k ∧ k < block.resultCount i ∧ reports i k ≠ .success)
  | .loading localFoundError => localFoundError = true
  | .storing value => value = true

theorem doomed_looping (every_fails : ∀ i < block.transactions.length, EntryFails block reports i)
    {i last : ℕ} (inside : i < last) (bound : last ≤ block.transactions.length) :
    RangeTask.Doomed block reports (.looping i 0 last false) := by
  obtain ⟨k, pending, failed⟩ := every_fails i (Nat.lt_of_lt_of_le inside bound)
  exact ⟨bound, Or.inr ⟨inside, k, Nat.zero_le k, pending, failed⟩⟩

theorem doomed_advance (every_fails : ∀ i < block.transactions.length, EntryFails block reports i)
    (foundError : Bool) {task : RangeTask} (doomed : task.Doomed block reports) :
    match (task.advance block reports foundError).2 with
    | none => (task.advance block reports foundError).1 = true
    | some next => (task.advance block reports foundError).1 = foundError ∧
        next.Doomed block reports := by
  cases task with
  | waiting begin last =>
      cases foundError with
      | true => rfl
      | false => exact ⟨rfl, doomed_looping every_fails doomed.1 doomed.2⟩
  | looping i j last localFoundError =>
      obtain ⟨bound, fails⟩ := doomed
      simp only [RangeTask.advance]
      split_ifs with inside pending failed
      · exact ⟨rfl, bound, Or.inl rfl⟩
      · refine ⟨rfl, bound, ?_⟩
        rcases fails with already | ⟨_, k, reached, counted, failing⟩
        · exact Or.inl already
        · have later : j ≠ k := fun same => failed (same ▸ failing)
          exact Or.inr ⟨inside, k, Nat.lt_of_le_of_ne reached later, counted, failing⟩
      · refine ⟨rfl, bound, Or.inl ?_⟩
        rcases fails with already | ⟨_, k, reached, counted, _⟩
        · exact already
        · omega
      · refine ⟨rfl, ?_⟩
        rcases fails with already | ⟨more, _⟩
        · exact already
        · exact absurd more inside
  | loading localFoundError =>
      have failed : localFoundError = true := doomed
      refine ⟨rfl, ?_⟩
      simp only [RangeTask.Doomed, failed, Bool.or_true]
  | storing value => exact doomed

def ErrorKept (block : Block SignedTransaction NondeterministicResults) (reports : Reports)
    (pool : Pool Bool RangeTask) : Prop :=
  (pool.shared = true ∨ pool.tasks ≠ 0) ∧ ∀ task ∈ pool.tasks, task.Doomed block reports

theorem error_kept_step (every_fails : ∀ i < block.transactions.length, EntryFails block reports i)
    (pool : Pool Bool RangeTask) (label : RangeTask) (next : Pool Bool RangeTask)
    (kept : ErrorKept block reports pool)
    (step : Threads.Step (RangeMoves block reports) pool label next) :
    ErrorKept block reports next := by
  cases step with
  | @move foundError after task left rest moved =>
      obtain ⟨_, doomed⟩ := kept
      rw [Multiset.forall_mem_cons] at doomed
      obtain ⟨own, others⟩ := doomed
      cases moved with
      | @split _ begin middle last first second =>
          rw [Multiset.insert_eq_cons, Multiset.cons_add]
          refine ⟨Or.inr Multiset.cons_ne_zero, ?_⟩
          intro task member
          rcases Multiset.mem_cons.mp member with rfl | member
          · exact ⟨first, second.le.trans own.2⟩
          · rcases Multiset.mem_cons.mp member with rfl | untouched
            · exact ⟨second, own.2⟩
            · exact others task (by simpa using untouched)
      | advance =>
          have advanced := doomed_advance every_fails foundError own
          cases ended : (label.advance block reports foundError).2 with
          | none =>
              rw [ended] at advanced
              exact ⟨Or.inl advanced, fun task member => others task (by simpa using member)⟩
          | some successor =>
              rw [ended] at advanced
              refine ⟨Or.inr Multiset.cons_ne_zero, ?_⟩
              intro task member
              rcases Multiset.mem_cons.mp member with rfl | untouched
              · exact advanced.2
              · exact others task (by simpa using untouched)

/-! ## Some entry fails and some entry does not -/

theorem step_alone {task next : RangeTask}
    (advanced : task.advance block reports false = (false, some next)) :
    Threads.Step (RangeMoves block reports) ⟨false, {task}⟩ task ⟨false, {next}⟩ := by
  have moved : Threads.Step (RangeMoves block reports) ⟨false, {task}⟩ task _ :=
    .move 0 (RangeMoves.advance false task)
  rw [advanced] at moved
  exact moved

/-- The loops over entries that succeed end with nothing to report. -/
theorem run_quiet_loops {last : ℕ} (i j : ℕ)
    (succeeds : ∀ k, i ≤ k → k < last → ¬ EntryFails block reports k) :
    ∃ labels, Run (Threads.Step (RangeMoves block reports))
      ⟨false, {.looping i j last false}⟩ labels ⟨false, {.storing false}⟩ := by
  induction work : loopWork block i j last using Nat.strong_induction_on generalizing i j with
  | _ work induction =>
      by_cases inside : i < last
      · by_cases pending : j < block.resultCount i
        · have success : ¬ reports i j ≠ .success :=
            fun failed => succeeds i (le_refl i) inside ⟨j, pending, failed⟩
          have advanced : RangeTask.advance block reports false (.looping i j last false) =
              (false, some (.looping i (j + 1) last false)) := by
            simp only [RangeTask.advance, if_pos inside, if_pos pending, if_neg success]
          obtain ⟨labels, run⟩ := induction _ (work ▸ loop_work_step block inside pending) i (j + 1)
            succeeds rfl
          exact ⟨_, .cons (step_alone advanced) run⟩
        · have advanced : RangeTask.advance block reports false (.looping i j last false) =
              (false, some (.looping (i + 1) 0 last false)) := by
            simp only [RangeTask.advance, if_pos inside, if_neg pending]
          obtain ⟨labels, run⟩ := induction _ (work ▸ loop_work_next block inside j) (i + 1) 0
            (fun k above => succeeds k (by omega)) rfl
          exact ⟨_, .cons (step_alone advanced) run⟩
      · have advanced : RangeTask.advance block reports false (.looping i j last false) =
            (false, some (.loading false)) := by
          simp only [RangeTask.advance, if_neg inside]
        exact ⟨_, .cons (step_alone advanced) (.cons (step_alone rfl) (.nil _))⟩

/-- While a range that reports nothing is about to store, every other range may
run to its end; its store then clears the flag. -/
theorem run_lost_store (begin last : ℕ) (rest : Multiset RangeTask)
    (succeeds : ∀ k, begin ≤ k → k < last → ¬ EntryFails block reports k) :
    ∃ labels, Run (Threads.Step (RangeMoves block reports))
      ⟨false, .waiting begin last ::ₘ rest⟩ labels ⟨false, 0⟩ := by
  obtain ⟨quiet, loops⟩ := run_quiet_loops begin 0 succeeds
  have own : Run (Threads.Step (RangeMoves block reports)) ⟨false, {.waiting begin last}⟩ _
      ⟨false, {.storing false}⟩ := .cons (step_alone rfl) loops
  obtain ⟨others, final, run, finished⟩ : ∃ labels final,
      Run (Threads.Step (RangeMoves block reports)) ⟨false, rest⟩ labels final ∧ final.Finished :=
    run_finishes moves_lighter moves_progress ⟨false, rest⟩
  have meanwhile := run_frame run {.storing false}
  rw [finished, zero_add, add_comm] at meanwhile
  have stored : Threads.Step (RangeMoves block reports) ⟨final.shared, {.storing false}⟩
      (.storing false) ⟨false, 0⟩ := .move 0 (RangeMoves.advance final.shared (.storing false))
  exact ⟨_, run_append (run_frame own rest) (run_snoc meanwhile stored)⟩

theorem entry_fails_lt {i : ℕ} (fails : EntryFails block reports i) :
    i < block.transactions.length := by
  obtain ⟨j, pending, _⟩ := fails
  by_contra outside
  have missing := List.getElem?_eq_none (Nat.not_lt.mp outside)
  rw [Block.resultCount, missing] at pending
  exact absurd pending (Nat.not_lt_zero j)

theorem run_isolate {i last : ℕ} (begin : ℕ) (above : begin ≤ i) (below : i < last) :
    ∃ labels rest, Run (Threads.Step (RangeMoves block reports)) ⟨false, {.waiting begin last}⟩
      labels ⟨false, .waiting i (i + 1) ::ₘ rest⟩ := by
  have right : ∃ labels rest, Run (Threads.Step (RangeMoves block reports))
      ⟨false, {.waiting i last}⟩ labels ⟨false, .waiting i (i + 1) ::ₘ rest⟩ := by
    rcases Nat.eq_or_lt_of_le below with same | more
    · rw [← same]
      exact ⟨[], 0, .nil _⟩
    · have split : RangeMoves block reports false (.waiting i last) false
          {.waiting i (i + 1), .waiting (i + 1) last} := .split false (Nat.lt_succ_self i) more
      exact ⟨_, {.waiting (i + 1) last}, .cons (.move 0 split) (.nil _)⟩
  obtain ⟨labels, rest, run⟩ := right
  rcases Nat.eq_or_lt_of_le above with rfl | more
  · exact ⟨labels, rest, run⟩
  · have split : RangeMoves block reports false (.waiting begin last) false
        {.waiting begin i, .waiting i last} := .split false more below
    have framed := run_frame run {.waiting begin i}
    rw [add_comm, Multiset.singleton_add, Multiset.cons_add] at framed
    exact ⟨_, _, .cons (.move 0 split) framed⟩

/-- Some schedule validates a block in which an entry fails and another does
not. -/
theorem run_validates_failure {i : ℕ} (inside : i < block.transactions.length)
    (succeeds : ¬ EntryFails block reports i) :
    ∃ labels, Run (Threads.Step (RangeMoves block reports)) block.reduction labels ⟨false, 0⟩ := by
  have only : ∀ k, i ≤ k → k < i + 1 → ¬ EntryFails block reports k := by
    intro k above below
    obtain rfl : k = i := by omega
    exact succeeds
  have start : block.reduction = ⟨false, {.waiting 0 block.transactions.length}⟩ := by
    unfold Block.reduction
    rw [if_neg (by omega)]
  rw [start]
  obtain ⟨splits, rest, isolated⟩ := run_isolate 0 (Nat.zero_le i) inside
  obtain ⟨labels, lost⟩ := run_lost_store i (i + 1) rest only
  exact ⟨_, run_append isolated lost⟩

theorem reduction_ends {labels : List RangeTask} {pool : Pool Bool RangeTask}
    (run : Run (Threads.Step (RangeMoves block reports)) block.reduction labels pool) :
    labels.length ≤ block.reduction.load (RangeTask.weight block) ∧
      (pool.Finished ∨ ∃ label next, Threads.Step (RangeMoves block reports) pool label next) := by
  constructor
  · have bounded := run_bounded moves_lighter run
    omega
  · obtain ⟨foundError, tasks⟩ := pool
    by_cases empty : tasks = 0
    · exact Or.inl empty
    · obtain ⟨task, member⟩ := Multiset.exists_mem_of_ne_zero empty
      obtain ⟨rest, rfl⟩ := Multiset.exists_cons_of_mem member
      exact Or.inr ⟨task, _, .move rest (RangeMoves.advance foundError task)⟩

theorem quiet_answer (none_fails : ∀ i, ¬ EntryFails block reports i) {labels : List RangeTask}
    {pool : Pool Bool RangeTask}
    (run : Run (Threads.Step (RangeMoves block reports)) block.reduction labels pool) :
    validated pool = true := by
  have started : ∀ task ∈ block.reduction.tasks, task.Quiet := by
    intro task member
    unfold Block.reduction at member
    simp only at member
    split_ifs at member
    · exact absurd member (Multiset.notMem_zero task)
    · rw [Multiset.mem_singleton.mp member]
      trivial
  have kept := Threads.run_kept (fun foundError => foundError = false) RangeTask.Quiet
    (quiet_moves none_fails) run ⟨rfl, started⟩
  rw [validated, kept.1]
  rfl

theorem doomed_answer (every_fails : ∀ i < block.transactions.length, EntryFails block reports i)
    (nonempty : block.transactions.length ≠ 0) {labels : List RangeTask}
    {pool : Pool Bool RangeTask}
    (run : Run (Threads.Step (RangeMoves block reports)) block.reduction labels pool)
    (finished : pool.Finished) : validated pool = false := by
  have started : ErrorKept block reports block.reduction := by
    unfold Block.reduction
    rw [if_neg nonempty]
    refine ⟨Or.inr (Multiset.singleton_ne_zero _), ?_⟩
    intro task member
    rw [Multiset.mem_singleton.mp member]
    exact ⟨Nat.pos_of_ne_zero nonempty, le_refl _⟩
  obtain ⟨set, _⟩ := run_invariant _ (error_kept_step every_fails) started run
  rcases set with set | pending
  · rw [validated, set]
    rfl
  · exact absurd finished pending

/-- Validation is exact in every schedule when no entry fails or every entry
fails, and only then. -/
theorem validation_exact_iff (block : Block SignedTransaction NondeterministicResults)
    (reports : Reports) :
    Exact block reports ↔
      (∀ i < block.transactions.length, ¬ EntryFails block reports i) ∨
        ∀ i < block.transactions.length, EntryFails block reports i := by
  constructor
  · intro exact_answer
    by_contra mixed
    push Not at mixed
    obtain ⟨⟨failing, _, fails⟩, passing, inside, succeeds⟩ := mixed
    obtain ⟨labels, run⟩ := run_validates_failure inside succeeds
    have accepted := (exact_answer.answer labels _ run rfl).mp rfl
    exact accepted failing (entry_fails_lt fails) fails
  · intro alike
    refine ⟨⟨_, fun labels pool run => (reduction_ends run).1⟩,
      fun labels pool run => (reduction_ends run).2, ?_⟩
    intro labels pool run finished
    by_cases none_fails : ∀ i < block.transactions.length, ¬ EntryFails block reports i
    · have quiet := quiet_answer (fun i fails => none_fails i (entry_fails_lt fails) fails) run
      exact ⟨fun _ => none_fails, fun _ => quiet⟩
    · have every_fails := alike.resolve_left none_fails
      have nonempty : block.transactions.length ≠ 0 := by
        intro empty
        apply none_fails
        intro i inside
        omega
      rw [doomed_answer every_fails nonempty run finished]
      exact ⟨fun impossible => absurd impossible Bool.false_ne_true,
        fun succeed => absurd succeed none_fails⟩

def secondFails : Reports := fun i _ => if i = 0 then .success else .failure

theorem failure_validates : ¬ ∀ (block : Block Unit Unit) (reports : Reports),
    Exact block reports := by
  intro claimed
  have two := claimed ⟨[⟨(), [()]⟩, ⟨(), [()]⟩]⟩ secondFails
  have first : ¬ EntryFails (⟨[⟨(), [()]⟩, ⟨(), [()]⟩]⟩ : Block Unit Unit) secondFails 0 := by
    intro ⟨j, _, failed⟩
    exact failed rfl
  obtain ⟨labels, run⟩ := run_validates_failure (Nat.zero_lt_two) first
  have accepted := (two.answer labels _ run rfl).mp rfl
  exact accepted 1 (Nat.lt_succ_self 1) ⟨0, Nat.zero_lt_one, by decide⟩

end Reduce

end Scs
