import Mathlib.Algebra.BigOperators.Group.Multiset.Basic
import Mathlib.Data.Int.ModEq
import Scs.Library.Threads
import Scs.Utils.AtomicUint128

/-!
# Interleaved calls on the split counter (`utils/atomic_uint128.h`)

A call updates the low word first and the high word, if at all, in a step of its
own. Until then it owes a carry or a borrow. What the words say and what is owed
together never change, modulo `2 ^ 128`.
-/

namespace Scs

set_option autoImplicit false

open Runs Threads Words

inductive CounterCall where
  | add (v : UInt64)
  | sub (v : UInt64)
  deriving DecidableEq, Repr

inductive CounterTask where
  | begins (call : CounterCall)
  | carries
  | borrows
  deriving DecidableEq, Repr

inductive CounterMoves : Moves AtomicUint128 CounterTask
  | addLow {counter : AtomicUint128} {v : UInt64}
      (fits : addOverflowUInt64 counter.lowbits.toNat v.toNat = false) :
      CounterMoves counter (.begins (.add v))
        { counter with lowbits := counter.lowbits + v } 0
  | addLowOverflows {counter : AtomicUint128} {v : UInt64}
      (overflows : addOverflowUInt64 counter.lowbits.toNat v.toNat = true) :
      CounterMoves counter (.begins (.add v))
        { counter with lowbits := counter.lowbits + v } {.carries}
  | addHigh {counter : AtomicUint128} :
      CounterMoves counter .carries { counter with highbits := counter.highbits + 1 } 0
  | subLow {counter : AtomicUint128} {v : UInt64}
      (fits : addOverflowUInt64 counter.lowbits.toNat (-v.toNat) = false) :
      CounterMoves counter (.begins (.sub v))
        { counter with lowbits := counter.lowbits - v } 0
  | subLowOverflows {counter : AtomicUint128} {v : UInt64}
      (overflows : addOverflowUInt64 counter.lowbits.toNat (-v.toNat) = true) :
      CounterMoves counter (.begins (.sub v))
        { counter with lowbits := counter.lowbits - v } {.borrows}
  | subHigh {counter : AtomicUint128} :
      CounterMoves counter .borrows { counter with highbits := counter.highbits - 1 } 0

def CounterCall.amount : CounterCall → ℤ
  | .add v => v.toNat
  | .sub v => -v.toNat

def CounterTask.owed : CounterTask → ℤ
  | .begins call => call.amount
  | .carries => 2 ^ 64
  | .borrows => -2 ^ 64

def owedTotal (tasks : Multiset CounterTask) : ℤ := (tasks.map CounterTask.owed).sum

@[simp] theorem owed_total_zero : owedTotal 0 = 0 := rfl

@[simp] theorem owed_total_cons (task : CounterTask) (rest : Multiset CounterTask) :
    owedTotal (task ::ₘ rest) = task.owed + owedTotal rest := by
  simp only [owedTotal, Multiset.map_cons, Multiset.sum_cons]

@[simp] theorem owed_total_add (left rest : Multiset CounterTask) :
    owedTotal (left + rest) = owedTotal left + owedTotal rest := by
  simp only [owedTotal, Multiset.map_add, Multiset.sum_add]

@[simp] theorem owed_total_singleton (task : CounterTask) : owedTotal {task} = task.owed := by
  simp only [owedTotal, Multiset.map_singleton, Multiset.sum_singleton]

variable {counter after : AtomicUint128} {task : CounterTask} {left : Multiset CounterTask}

theorem counter_moves_conserve (moved : CounterMoves counter task after left) :
    (after.value + owedTotal left : ℤ) ≡ counter.value + task.owed [ZMOD 2 ^ 128] := by
  obtain ⟨low, high⟩ := counter
  have lowBound := low.toNat_lt
  have highBound := high.toNat_lt
  unfold Int.ModEq
  cases moved with
  | @addLow _ v fits =>
      have bound := v.toNat_lt
      rw [← Bool.not_eq_true, add_overflow_uint64_iff] at fits
      simp only [AtomicUint128.value, UInt64.toNat_add, CounterTask.owed, CounterCall.amount,
        owed_total_zero] at fits ⊢
      omega
  | @addLowOverflows _ v overflows =>
      have bound := v.toNat_lt
      rw [add_overflow_uint64_iff] at overflows
      simp only [AtomicUint128.value, UInt64.toNat_add, CounterTask.owed, CounterCall.amount,
        owed_total_singleton] at overflows ⊢
      omega
  | addHigh =>
      simp only [AtomicUint128.value, UInt64.toNat_add, UInt64.toNat_one, CounterTask.owed,
        owed_total_zero]
      omega
  | @subLow _ v fits =>
      have bound := v.toNat_lt
      rw [← Bool.not_eq_true, add_overflow_uint64_iff] at fits
      simp only [AtomicUint128.value, UInt64.toNat_sub, CounterTask.owed, CounterCall.amount,
        owed_total_zero] at fits ⊢
      omega
  | @subLowOverflows _ v overflows =>
      have bound := v.toNat_lt
      rw [add_overflow_uint64_iff] at overflows
      simp only [AtomicUint128.value, UInt64.toNat_sub, CounterTask.owed, CounterCall.amount,
        owed_total_singleton] at overflows ⊢
      omega
  | subHigh =>
      simp only [AtomicUint128.value, UInt64.toNat_sub, UInt64.toNat_one, CounterTask.owed,
        owed_total_zero]
      omega

variable {start final : Pool AtomicUint128 CounterTask} {labels : List CounterTask}

/-- In the middle of any interleaving the words are off by what is still owed. -/
theorem counter_run_conserves (run : Run (Threads.Step CounterMoves) start labels final) :
    (final.shared.value + owedTotal final.tasks : ℤ) ≡
      start.shared.value + owedTotal start.tasks [ZMOD 2 ^ 128] := by
  induction run with
  | nil pool => exact Int.ModEq.refl _
  | cons first _ induction =>
      apply induction.trans
      cases first with
      | move rest moved =>
          have kept := (counter_moves_conserve moved).add_right (owedTotal rest)
          simp only [owed_total_add, owed_total_cons]
          calc
            _ = _ := by ring
            _ ≡ _ [ZMOD 2 ^ 128] := kept
            _ = _ := by ring

def CounterCall.apply (counter : AtomicUint128) : CounterCall → AtomicUint128
  | .add v => counter.add v
  | .sub v => counter.sub v

theorem call_runs_alone (counter : AtomicUint128) (call : CounterCall)
    (rest : Multiset CounterTask) :
    ∃ labels, Run (Threads.Step CounterMoves) ⟨counter, .begins call ::ₘ rest⟩ labels
      ⟨call.apply counter, rest⟩ := by
  have ended {task : CounterTask} {counter after : AtomicUint128}
      (moved : CounterMoves counter task after 0) :
      Threads.Step CounterMoves ⟨counter, task ::ₘ rest⟩ task ⟨after, rest⟩ := by
    have step := Threads.Step.move rest moved
    rwa [zero_add] at step
  have continued {task later : CounterTask} {counter after : AtomicUint128}
      (moved : CounterMoves counter task after {later}) :
      Threads.Step CounterMoves ⟨counter, task ::ₘ rest⟩ task ⟨after, later ::ₘ rest⟩ := by
    have step := Threads.Step.move rest moved
    rwa [Multiset.singleton_add] at step
  cases call with
  | add v =>
      simp only [CounterCall.apply, AtomicUint128.add]
      split_ifs with carried
      · exact ⟨_, .cons (continued (.addLowOverflows carried)) (.cons (ended .addHigh) (.nil _))⟩
      · exact ⟨_, .cons (ended (.addLow (by simpa using carried))) (.nil _)⟩
  | sub v =>
      simp only [CounterCall.apply, AtomicUint128.sub]
      split_ifs with borrowed
      · exact ⟨_, .cons (continued (.subLowOverflows borrowed)) (.cons (ended .subHigh) (.nil _))⟩
      · exact ⟨_, .cons (ended (.subLow (by simpa using borrowed))) (.nil _)⟩

def beginning (calls : Multiset CounterCall) : Multiset CounterTask :=
  calls.map CounterTask.begins

def callsTotal (calls : Multiset CounterCall) : ℤ := (calls.map CounterCall.amount).sum

theorem owed_total_beginning (calls : Multiset CounterCall) :
    owedTotal (beginning calls) = callsTotal calls := by
  simp only [owedTotal, beginning, callsTotal, Multiset.map_map, Function.comp_def,
    CounterTask.owed]

/-- Once all calls have finished the words are exact, and so is the capped read.
Of the totals in the order of the low-word updates only the last, which is the same
in every order, has to fit. -/
theorem counter_exact_at_rest {counter : AtomicUint128} {calls : Multiset CounterCall}
    {labels : List CounterTask} {final : Pool AtomicUint128 CounterTask}
    (run : Run (Threads.Step CounterMoves) ⟨counter, beginning calls⟩ labels final)
    (finished : final.Finished) (lower : 0 ≤ counter.value + callsTotal calls)
    (upper : counter.value + callsTotal calls < 2 ^ 128) :
    (final.shared.highbits.toNat * 2 ^ 64 + final.shared.lowbits.toNat : ℤ) =
        counter.value + callsTotal calls ∧
      (final.shared.fetchCap.toNat : ℤ) =
        min (counter.value + callsTotal calls) (2 ^ 64 - 1) := by
  have conserved := counter_run_conserves run
  have bounded := final.shared.value_lt
  have ended : final.tasks = 0 := finished
  rw [ended, owed_total_zero, owed_total_beginning] at conserved
  have exact : (final.shared.value : ℤ) = counter.value + callsTotal calls := by
    simp only [Int.ModEq] at conserved
    omega
  constructor
  · rw [← exact, AtomicUint128.value]
    push_cast
    rfl
  · rw [AtomicUint128.fetch_cap_eq, ← exact]
    omega

/-- Two calls of which one overflows the low word and one borrows it back. -/
def crossingCalls : Multiset CounterCall := {.add 2, .sub 3}

theorem counter_exact_at_rest_crossing : ∃ labels final,
    Run (Threads.Step CounterMoves)
      ⟨{ lowbits := 0xFFFFFFFFFFFFFFFF, highbits := 0 }, beginning crossingCalls⟩ labels final ∧
    (final.shared.highbits.toNat * 2 ^ 64 + final.shared.lowbits.toNat : ℤ) = 2 ^ 64 - 2 ∧
      (final.shared.fetchCap.toNat : ℤ) = 2 ^ 64 - 2 := by
  obtain ⟨first, added⟩ := call_runs_alone
    { lowbits := 0xFFFFFFFFFFFFFFFF, highbits := 0 } (.add 2) {.begins (.sub 3)}
  obtain ⟨second, subtracted⟩ := call_runs_alone
    ((CounterCall.add 2).apply { lowbits := 0xFFFFFFFFFFFFFFFF, highbits := 0 }) (.sub 3) 0
  have run : Run (Threads.Step CounterMoves) ⟨_, beginning crossingCalls⟩ _ _ :=
    run_append added subtracted
  have total : ({ lowbits := 0xFFFFFFFFFFFFFFFF, highbits := 0 } : AtomicUint128).value +
      callsTotal crossingCalls = 2 ^ 64 - 2 := by decide
  obtain ⟨words, capped⟩ := counter_exact_at_rest run rfl
    (by rw [total]; decide) (by rw [total]; decide)
  rw [total] at words capped
  exact ⟨_, _, run, words, capped⟩

end Scs
