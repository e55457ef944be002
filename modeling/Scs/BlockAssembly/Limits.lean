import Scs.Library.Threads
import Scs.Library.Words
import Mathlib.Data.Multiset.Filter

/-!
# Limits on the assembly of a block (`block_assembly/limits.cc`, `limits.h`)

Two shared counters hold what is left of the transaction count and of the gas of
a block. A call of `reserve_tx` and a destructor move them by single fetch-adds,
in any interleaving; `AssemblyWorker::run` is one way to issue these calls.
-/

namespace Scs

set_option autoImplicit false

open Runs Threads Words

structure AssemblyLimits where
  maxTxs : Int64
  overallGasLimit : Int64
  deriving DecidableEq, Repr

def gasLimitPerTx : UInt64 := 10000000

structure Reservation where
  gas : UInt64
  deriving DecidableEq, Repr

def Reservation.commit (reservation : Reservation) : Reservation :=
  { reservation with gas := 0 }

namespace AssemblyLimits

def takeTx (limits : AssemblyLimits) : AssemblyLimits :=
  { limits with maxTxs := limits.maxTxs - 1 }

def returnTx (limits : AssemblyLimits) : AssemblyLimits :=
  { limits with maxTxs := limits.maxTxs + 1 }

def takeGas (gasLimit : UInt64) (limits : AssemblyLimits) : AssemblyLimits :=
  { limits with overallGasLimit := limits.overallGasLimit - gasLimit.toInt64 }

def returnGas (gas : UInt64) (limits : AssemblyLimits) : AssemblyLimits :=
  { limits with overallGasLimit := limits.overallGasLimit + gas.toInt64 }

end AssemblyLimits

/-- The counters, with the gas limits of the committed reservations and the
number of transactions whose reservation is gone but not back in the count. -/
structure LimitsRound where
  limits : AssemblyLimits
  committed : Multiset UInt64
  unreturned : ℕ

/-- The callers, each call and destructor by the access it makes next, and the
reservations that exist. -/
inductive LimitsTask where
  | caller
  | reserving (gasLimit : UInt64)
  | refusingTx
  | reservingGas (gasLimit : UInt64)
  | refusingGas (gasLimit : UInt64)
  | live (reservation : Reservation)
  | committed (reservation : Reservation)
  | undoing (gas : UInt64)
  | undoingGas (gas : UInt64)
  deriving DecidableEq, Repr

/-- What a call of `reserve_tx` does after its check of the gas limit. -/
def enteredTasks (gasLimit : UInt64) : Multiset LimitsTask :=
  if gasLimitPerTx < gasLimit then 0 else {.reserving gasLimit}

def Reservation.destroyed (reservation : Reservation) : Multiset LimitsTask :=
  if 0 < reservation.gas then {.undoing reservation.gas} else 0

inductive LimitsMoves : Threads.Moves LimitsRound LimitsTask
  | called {round : LimitsRound} (gasLimit : UInt64) :
      LimitsMoves round .caller round (.caller ::ₘ enteredTasks gasLimit)
  | tookTx {round : LimitsRound} {gasLimit : UInt64} (open_count : 0 < round.limits.maxTxs) :
      LimitsMoves round (.reserving gasLimit) { round with limits := round.limits.takeTx }
        {.reservingGas gasLimit}
  | overtookTx {round : LimitsRound} {gasLimit : UInt64} (spent : round.limits.maxTxs ≤ 0) :
      LimitsMoves round (.reserving gasLimit) { round with limits := round.limits.takeTx }
        {.refusingTx}
  | returnedTx {round : LimitsRound} :
      LimitsMoves round .refusingTx { round with limits := round.limits.returnTx } 0
  | tookGas {round : LimitsRound} {gasLimit : UInt64}
      (open_gas : 0 < round.limits.overallGasLimit) :
      LimitsMoves round (.reservingGas gasLimit)
        { round with limits := round.limits.takeGas gasLimit } {.live { gas := gasLimit }}
  | overtookGas {round : LimitsRound} {gasLimit : UInt64}
      (spent : round.limits.overallGasLimit ≤ 0) :
      -- The refusal below returns the gas and leaves the count decremented.
      LimitsMoves round (.reservingGas gasLimit)
        { round with
          limits := round.limits.takeGas gasLimit
          unreturned := round.unreturned + 1 }
        {.refusingGas gasLimit}
  | returnedGas {round : LimitsRound} {gasLimit : UInt64} :
      LimitsMoves round (.refusingGas gasLimit)
        { round with limits := round.limits.returnGas gasLimit } 0
  | commits {round : LimitsRound} {reservation : Reservation} :
      LimitsMoves round (.live reservation)
        { round with committed := reservation.gas ::ₘ round.committed }
        {.committed reservation.commit}
  | recommits {round : LimitsRound} {reservation : Reservation} :
      LimitsMoves round (.committed reservation) round {.committed reservation.commit}
  | releases {round : LimitsRound} {reservation : Reservation} (refunds : 0 < reservation.gas) :
      LimitsMoves round (.live reservation) round reservation.destroyed
  | drops {round : LimitsRound} {reservation : Reservation} (free : ¬ 0 < reservation.gas) :
      LimitsMoves round (.live reservation)
        { round with unreturned := round.unreturned + 1 } reservation.destroyed
  | ends {round : LimitsRound} {reservation : Reservation} :
      LimitsMoves round (.committed reservation) round reservation.destroyed
  | undidTx {round : LimitsRound} {gas : UInt64} :
      LimitsMoves round (.undoing gas) { round with limits := round.limits.returnTx }
        {.undoingGas gas}
  | undidGas {round : LimitsRound} {gas : UInt64} :
      LimitsMoves round (.undoingGas gas) { round with limits := round.limits.returnGas gas } 0

abbrev LimitsPool := Pool LimitsRound LimitsTask

/-- Fresh limits; the caller stands for every thread, as it may call at any time
and any number of its calls may be under way. -/
def limitsPool (limits : AssemblyLimits) : LimitsPool where
  shared := { limits := limits, committed := 0, unreturned := 0 }
  tasks := {.caller}

def LimitsTask.live? : LimitsTask → Option UInt64
  | .live reservation => some reservation.gas
  | _ => none

def reservations (pool : LimitsPool) : Multiset UInt64 :=
  pool.shared.committed + pool.tasks.filterMap LimitsTask.live?

def totalGas (gasLimits : Multiset UInt64) : ℕ := (gasLimits.map UInt64.toNat).sum

/-- No call of `reserve_tx` and no destructor is under way. -/
def LimitsTask.Settled : LimitsTask → Prop
  | .caller | .live _ | .committed _ => True
  | _ => False

def Idle (pool : LimitsPool) : Prop := ∀ task ∈ pool.tasks, task.Settled

/-- Each counter and the reservations add up to what the limits started with. It is said of
pools at rest only: a call that is under way has taken its share of one counter before the
other. -/
structure Conserved (limits : AssemblyLimits) (pool : LimitsPool) : Prop where
  txs : pool.shared.limits.maxTxs.toInt + Multiset.card (reservations pool) =
    limits.maxTxs.toInt
  gas : pool.shared.limits.overallGasLimit.toInt + totalGas (reservations pool) =
    limits.overallGasLimit.toInt

structure Respected (limits : AssemblyLimits) (pool : LimitsPool) : Prop where
  txs : (Multiset.card (reservations pool) : ℤ) ≤ limits.maxTxs.toInt
  gas : (totalGas (reservations pool) : ℤ) ≤ limits.overallGasLimit.toInt

/-! ## Steps that keep the accounts -/

/-- The decrement of the count stays above the least machine integer. -/
def CountStays (round : LimitsRound) : LimitsTask → Prop
  | .reserving _ => round.limits.maxTxs ≠ Int64.minValue
  | _ => True

/-- The decrement of the gas stays above the least machine integer. -/
def GasStays (round : LimitsRound) : LimitsTask → Prop
  | .reservingGas gasLimit =>
      -2 ^ 63 ≤ round.limits.overallGasLimit.toInt - (gasLimit.toNat : ℤ)
  | _ => True

/-- A reservation that the gas counter admits finds its whole gas limit there. The code asks
only for a counter above zero. -/
def GasCovered (round : LimitsRound) : LimitsTask → Prop
  | .reservingGas gasLimit => 0 < round.limits.overallGasLimit →
      (gasLimit.toNat : ℤ) ≤ round.limits.overallGasLimit.toInt
  | _ => True

/-- The move gives up a transaction of the count for good: it refuses a call for
gas, or destroys an uncommitted reservation of no gas. -/
def LosesTx (round : LimitsRound) (task : LimitsTask) (left : Multiset LimitsTask) : Prop :=
  match task with
  | .reservingGas _ => round.limits.overallGasLimit ≤ 0
  | .live reservation => reservation.gas = 0 ∧ left = reservation.destroyed
  | _ => False

def CountingMoves : Threads.Moves LimitsRound LimitsTask := fun round task after left =>
  LimitsMoves round task after left ∧ CountStays round task

def ReturningMoves : Threads.Moves LimitsRound LimitsTask := fun round task after left =>
  CountingMoves round task after left ∧ ¬ LosesTx round task left

/-- A move whose decrements do not wrap and that admits no reservation beyond the
gas that is left. -/
def CoveredMoves : Threads.Moves LimitsRound LimitsTask := fun round task after left =>
  CountingMoves round task after left ∧ GasStays round task ∧ GasCovered round task

/-! ## What the tasks hold -/

/-- The transactions that an admitted call or a reservation has taken. -/
def LimitsTask.admittedTxs : LimitsTask → ℕ
  | .reservingGas _ | .live _ | .undoing _ => 1
  | _ => 0

def LimitsTask.refusedTxs : LimitsTask → ℕ
  | .refusingTx => 1
  | _ => 0

def LimitsTask.admittedGas : LimitsTask → ℕ
  | .live reservation => reservation.gas.toNat
  | .undoing gas | .undoingGas gas => gas.toNat
  | _ => 0

def LimitsTask.refusedGas : LimitsTask → ℕ
  | .refusingGas gasLimit => gasLimit.toNat
  | _ => 0

/-- Gas limits are below the limit for one transaction, and a committed
reservation returns nothing. -/
def LimitsTask.Sound : LimitsTask → Prop
  | .reserving gas | .reservingGas gas | .refusingGas gas | .undoing gas | .undoingGas gas =>
      gas ≤ gasLimitPerTx
  | .live reservation => reservation.gas ≤ gasLimitPerTx
  | .committed reservation => reservation.gas = 0
  | .caller | .refusingTx => True

structure CountKept (limits : AssemblyLimits) (pool : LimitsPool) : Prop where
  total : pool.shared.limits.maxTxs.toInt + Multiset.card pool.shared.committed +
    pool.shared.unreturned + pool.load LimitsTask.admittedTxs +
    pool.load LimitsTask.refusedTxs = limits.maxTxs.toInt
  within : (Multiset.card pool.shared.committed : ℤ) + pool.shared.unreturned +
    pool.load LimitsTask.admittedTxs ≤ max limits.maxTxs.toInt 0

structure GasKept (limits : AssemblyLimits) (pool : LimitsPool) : Prop where
  total : pool.shared.limits.overallGasLimit.toInt + totalGas pool.shared.committed +
    pool.load LimitsTask.admittedGas + pool.load LimitsTask.refusedGas =
    limits.overallGasLimit.toInt

variable {limits : AssemblyLimits} {round after : LimitsRound} {task : LimitsTask}
  {left rest : Multiset LimitsTask} {pool next : LimitsPool} {gasLimit : UInt64}

theorem entered_sound : ∀ task ∈ enteredTasks gasLimit, task.Sound := by
  intro task member
  unfold enteredTasks at member
  split at member
  · exact absurd member (Multiset.notMem_zero _)
  · rename_i within
    rw [Multiset.mem_singleton] at member
    subst member
    exact UInt64.not_lt.mp within

theorem destroyed_committed {reservation : Reservation} (free : reservation.gas = 0) :
    reservation.destroyed = 0 := by
  unfold Reservation.destroyed
  rw [free]
  exact if_neg (UInt64.lt_irrefl 0)

theorem moves_sound (sound : task.Sound) (moved : LimitsMoves round task after left) :
    ∀ other ∈ left, other.Sound := by
  cases moved with
  | called gasLimit =>
      rw [Multiset.forall_mem_cons]
      exact ⟨trivial, entered_sound⟩
  | releases refunds =>
      intro other member
      rw [Reservation.destroyed, if_pos refunds, Multiset.mem_singleton] at member
      subst member
      exact sound
  | drops free =>
      intro other member
      rw [Reservation.destroyed, if_neg free] at member
      exact absurd member (Multiset.notMem_zero _)
  | ends =>
      intro other member
      rw [destroyed_committed sound] at member
      exact absurd member (Multiset.notMem_zero _)
  | commits | recommits =>
      intro other member
      rw [Multiset.mem_singleton] at member
      subst member
      rfl
  | tookTx | tookGas | overtookGas | undidTx =>
      intro other member
      rw [Multiset.mem_singleton] at member
      subst member
      exact sound
  | overtookTx =>
      intro other member
      rw [Multiset.mem_singleton] at member
      subst member
      trivial
  | returnedTx | returnedGas | undidGas =>
      intro other member
      exact absurd member (Multiset.notMem_zero _)

/-! ## The accounts -/

@[simp]
theorem load_cons (weight : LimitsTask → ℕ) (round : LimitsRound) (task : LimitsTask)
    (rest : Multiset LimitsTask) :
    (⟨round, task ::ₘ rest⟩ : LimitsPool).load weight =
      weight task + (rest.map weight).sum := by
  rw [Pool.load, Multiset.map_cons, Multiset.sum_cons]

@[simp]
theorem load_add (weight : LimitsTask → ℕ) (round : LimitsRound)
    (left rest : Multiset LimitsTask) :
    (⟨round, left + rest⟩ : LimitsPool).load weight =
      (left.map weight).sum + (rest.map weight).sum := by
  rw [Pool.load, Multiset.map_add, Multiset.sum_add]

theorem entered_weightless (gasLimit : UInt64) (weight : LimitsTask → ℕ)
    (nothing : weight (.reserving gasLimit) = 0) :
    ((enteredTasks gasLimit).map weight).sum = 0 := by
  unfold enteredTasks
  split_ifs <;> simp [nothing]

theorem destroyed_weight (weight : LimitsTask → ℕ) (reservation : Reservation) :
    (reservation.destroyed.map weight).sum =
      if 0 < reservation.gas then weight (.undoing reservation.gas) else 0 := by
  unfold Reservation.destroyed
  split_ifs <;> simp

theorem take_exact (open_count : round.limits.maxTxs ≠ Int64.minValue) :
    (round.limits.maxTxs - 1).toInt = round.limits.maxTxs.toInt - 1 := by
  have lowest := round.limits.maxTxs.le_toInt
  have highest := round.limits.maxTxs.toInt_lt
  have above : round.limits.maxTxs.toInt ≠ Int64.minValue.toInt := by
    intro same
    exact open_count (Int64.toInt_inj.mp same)
  have least : Int64.minValue.toInt = -2 ^ 63 := rfl
  have one : (1 : Int64).toInt = 1 := rfl
  rw [int64_sub_exact _ _ (by omega) (by omega), one]

theorem return_exact (counter : Int64) (below : counter.toInt + 1 < 2 ^ 63) :
    (counter + 1).toInt = counter.toInt + 1 := by
  have lowest := counter.le_toInt
  have one : (1 : Int64).toInt = 1 := rfl
  rw [int64_add_exact _ _ (by omega) (by omega), one]

theorem moves_count (sound : task.Sound) (moved : CountingMoves round task after left)
    (room : round.limits.maxTxs.toInt + task.admittedTxs + task.refusedTxs < 2 ^ 63) :
    after.limits.maxTxs.toInt + Multiset.card after.committed + after.unreturned +
        (left.map LimitsTask.admittedTxs).sum + (left.map LimitsTask.refusedTxs).sum =
      round.limits.maxTxs.toInt + Multiset.card round.committed + round.unreturned +
        task.admittedTxs + task.refusedTxs := by
  obtain ⟨moved, stays⟩ := moved
  cases moved with
  | called gasLimit =>
      have admitted := entered_weightless gasLimit LimitsTask.admittedTxs rfl
      have refused := entered_weightless gasLimit LimitsTask.refusedTxs rfl
      simp [admitted, refused, LimitsTask.admittedTxs, LimitsTask.refusedTxs]
  | tookTx open_count | overtookTx spent =>
      have taken := take_exact stays
      simp [AssemblyLimits.takeTx, LimitsTask.admittedTxs, LimitsTask.refusedTxs, taken]
      omega
  | returnedTx | undidTx =>
      simp only [LimitsTask.admittedTxs, LimitsTask.refusedTxs] at room
      have returned := return_exact round.limits.maxTxs (by omega)
      simp [AssemblyLimits.returnTx, LimitsTask.admittedTxs, LimitsTask.refusedTxs, returned]
      try omega
  | tookGas open_gas | overtookGas spent =>
      simp [AssemblyLimits.takeGas, LimitsTask.admittedTxs, LimitsTask.refusedTxs]
      try omega
  | returnedGas | undidGas =>
      simp [AssemblyLimits.returnGas, LimitsTask.admittedTxs, LimitsTask.refusedTxs]
  | commits =>
      simp [LimitsTask.admittedTxs, LimitsTask.refusedTxs]
      omega
  | recommits => simp [LimitsTask.admittedTxs, LimitsTask.refusedTxs]
  | releases refunds =>
      simp [destroyed_weight, refunds, LimitsTask.admittedTxs, LimitsTask.refusedTxs]
  | drops free =>
      simp [destroyed_weight, free, LimitsTask.admittedTxs, LimitsTask.refusedTxs]
      omega
  | ends =>
      simp [destroyed_committed sound, LimitsTask.admittedTxs, LimitsTask.refusedTxs]

theorem moves_admitted (sound : task.Sound) (moved : LimitsMoves round task after left) :
    Multiset.card after.committed + after.unreturned + (left.map LimitsTask.admittedTxs).sum ≤
        Multiset.card round.committed + round.unreturned + task.admittedTxs ∨
      0 < round.limits.maxTxs.toInt ∧
        Multiset.card after.committed + after.unreturned +
            (left.map LimitsTask.admittedTxs).sum =
          Multiset.card round.committed + round.unreturned + task.admittedTxs + 1 := by
  cases moved with
  | tookTx open_count =>
      right
      exact ⟨Int64.lt_iff_toInt_lt.mp open_count, by simp [LimitsTask.admittedTxs]⟩
  | called gasLimit =>
      left
      simp [entered_weightless gasLimit LimitsTask.admittedTxs rfl, LimitsTask.admittedTxs]
  | overtookGas spent | commits =>
      left
      simp [LimitsTask.admittedTxs]
      omega
  | releases refunds =>
      left
      simp [destroyed_weight, refunds, LimitsTask.admittedTxs]
  | drops free =>
      left
      simp [destroyed_weight, free, LimitsTask.admittedTxs]
      omega
  | ends =>
      left
      simp [destroyed_committed sound, LimitsTask.admittedTxs]
  | _ =>
      left
      simp [LimitsTask.admittedTxs]

theorem count_kept_step (sound : ∀ task ∈ pool.tasks, task.Sound) (kept : CountKept limits pool)
    (step : Threads.Step CountingMoves pool task next) : CountKept limits next := by
  have highest := limits.maxTxs.toInt_lt
  cases step with
  | @move round after task left rest moved =>
      have taskSound := sound task (Multiset.mem_cons_self _ _)
      have total := kept.total
      have within := kept.within
      rw [load_cons, load_cons] at total
      rw [load_cons] at within
      simp only [Nat.cast_add] at total within
      have counted := moves_count taskSound moved (by omega)
      have admitted := moves_admitted taskSound moved.1
      constructor
      · rw [load_add, load_add]
        simp only [Nat.cast_add]
        omega
      · rw [load_add]
        simp only [Nat.cast_add]
        omega

/-! ## The account of the gas -/

theorem within_gas_limit (bounded : gasLimit ≤ gasLimitPerTx) :
    gasLimit.toInt64.toInt = gasLimit.toNat ∧ gasLimit.toNat ≤ 10000000 := by
  have small : gasLimit.toNat ≤ 10000000 := UInt64.le_iff_toNat_le.mp bounded
  constructor
  · rw [to_int64_eq, Int64.toInt_ofInt_of_le (by omega) (by omega)]
  · exact small

@[simp]
theorem total_gas_cons (gasLimit : UInt64) (gasLimits : Multiset UInt64) :
    totalGas (gasLimit ::ₘ gasLimits) = gasLimit.toNat + totalGas gasLimits := by
  rw [totalGas, Multiset.map_cons, Multiset.sum_cons, totalGas]

theorem moves_gas (sound : task.Sound) (moved : LimitsMoves round task after left)
    (stays : GasStays round task)
    (room : round.limits.overallGasLimit.toInt + task.admittedGas + task.refusedGas < 2 ^ 63) :
    after.limits.overallGasLimit.toInt + totalGas after.committed +
        (left.map LimitsTask.admittedGas).sum + (left.map LimitsTask.refusedGas).sum =
      round.limits.overallGasLimit.toInt + totalGas round.committed +
        task.admittedGas + task.refusedGas := by
  cases moved with
  | called gasLimit =>
      have admitted := entered_weightless gasLimit LimitsTask.admittedGas rfl
      have refused := entered_weightless gasLimit LimitsTask.refusedGas rfl
      simp [admitted, refused, LimitsTask.admittedGas, LimitsTask.refusedGas]
  | tookGas open_gas | overtookGas spent =>
      have highest := round.limits.overallGasLimit.toInt_lt
      obtain ⟨signed, small⟩ := within_gas_limit sound
      simp only [GasStays] at stays
      have taken := int64_sub_exact round.limits.overallGasLimit _
        (by rw [signed]; omega) (by rw [signed]; omega)
      rw [signed] at taken
      simp [AssemblyLimits.takeGas, LimitsTask.admittedGas, LimitsTask.refusedGas, taken]
      omega
  | returnedGas | undidGas =>
      have lowest := round.limits.overallGasLimit.le_toInt
      obtain ⟨signed, small⟩ := within_gas_limit sound
      simp only [LimitsTask.admittedGas, LimitsTask.refusedGas] at room
      have returned := int64_add_exact round.limits.overallGasLimit _
        (by rw [signed]; omega) (by rw [signed]; omega)
      rw [signed] at returned
      simp [AssemblyLimits.returnGas, LimitsTask.admittedGas, LimitsTask.refusedGas, returned]
      omega
  | commits =>
      simp [LimitsTask.admittedGas, LimitsTask.refusedGas]
      omega
  | releases refunds =>
      simp [destroyed_weight, refunds, LimitsTask.admittedGas, LimitsTask.refusedGas]
  | @drops _ reservation free =>
      have nothing : reservation.gas.toNat = 0 := by
        have zero := UInt64.le_iff_toNat_le.mp (UInt64.not_lt.mp free)
        exact Nat.le_zero.mp zero
      simp [destroyed_weight, free, nothing, LimitsTask.admittedGas, LimitsTask.refusedGas]
  | ends =>
      simp [destroyed_committed sound, LimitsTask.admittedGas, LimitsTask.refusedGas]
  | _ =>
      simp [AssemblyLimits.takeTx, AssemblyLimits.returnTx, LimitsTask.admittedGas,
        LimitsTask.refusedGas]

theorem moves_gas_admitted (sound : task.Sound) (moved : LimitsMoves round task after left) :
    totalGas after.committed + (left.map LimitsTask.admittedGas).sum ≤
        totalGas round.committed + task.admittedGas ∨
      ∃ gasLimit, task = .reservingGas gasLimit ∧ 0 < round.limits.overallGasLimit ∧
        totalGas after.committed + (left.map LimitsTask.admittedGas).sum =
          totalGas round.committed + gasLimit.toNat := by
  cases moved with
  | tookGas open_gas =>
      right
      exact ⟨_, rfl, open_gas, by simp [LimitsTask.admittedGas]⟩
  | called gasLimit =>
      left
      simp [entered_weightless gasLimit LimitsTask.admittedGas rfl, LimitsTask.admittedGas]
  | commits =>
      left
      simp [LimitsTask.admittedGas]
      omega
  | releases refunds =>
      left
      simp [destroyed_weight, refunds, LimitsTask.admittedGas]
  | drops free =>
      left
      simp [destroyed_weight, free, LimitsTask.admittedGas]
  | ends =>
      left
      simp [destroyed_committed sound, LimitsTask.admittedGas]
  | _ =>
      left
      simp [LimitsTask.admittedGas]

theorem gas_kept_step (sound : ∀ task ∈ pool.tasks, task.Sound) (kept : GasKept limits pool)
    (stays : GasStays pool.shared task)
    (step : Threads.Step LimitsMoves pool task next) : GasKept limits next := by
  have highest := limits.overallGasLimit.toInt_lt
  cases step with
  | @move round after task left rest moved =>
      have total := kept.total
      rw [load_cons, load_cons] at total
      simp only [Nat.cast_add] at total
      have counted := moves_gas (sound task (Multiset.mem_cons_self _ _)) moved stays (by omega)
      constructor
      rw [load_add, load_add]
      simp only [Nat.cast_add]
      omega

theorem gas_within_step (sound : ∀ task ∈ pool.tasks, task.Sound) (kept : GasKept limits pool)
    (within : (totalGas pool.shared.committed : ℤ) + pool.load LimitsTask.admittedGas ≤
      max limits.overallGasLimit.toInt 0)
    (covered : GasCovered pool.shared task) (step : Threads.Step LimitsMoves pool task next) :
    (totalGas next.shared.committed : ℤ) + next.load LimitsTask.admittedGas ≤
      max limits.overallGasLimit.toInt 0 := by
  cases step with
  | @move round after task left rest moved =>
      have total := kept.total
      rw [load_cons, load_cons] at total
      rw [load_cons] at within
      simp only [Nat.cast_add] at total within
      rw [load_add]
      simp only [Nat.cast_add]
      rcases moves_gas_admitted (sound task (Multiset.mem_cons_self _ _)) moved with
        kept | ⟨gasLimit, rfl, open_gas, admitted⟩
      · omega
      · have found : (gasLimit.toNat : ℤ) ≤ round.limits.overallGasLimit.toInt := covered open_gas
        omega

/-! ## What holds of every run -/

theorem limits_sound : ∀ task ∈ (limitsPool limits).tasks, task.Sound := by
  intro task member
  rw [limitsPool, Multiset.mem_singleton] at member
  subst member
  trivial

theorem count_kept_start : CountKept limits (limitsPool limits) := by
  constructor <;> simp [limitsPool, Pool.load, LimitsTask.admittedTxs, LimitsTask.refusedTxs]

theorem gas_kept_start : GasKept limits (limitsPool limits) := by
  constructor
  simp [limitsPool, Pool.load, totalGas, LimitsTask.admittedGas, LimitsTask.refusedGas]

theorem live_reservation_cons (reservation : Reservation) (tasks : Multiset LimitsTask) :
    (.live reservation ::ₘ tasks).filterMap LimitsTask.live? =
      reservation.gas ::ₘ tasks.filterMap LimitsTask.live? :=
  Multiset.filterMap_cons_some LimitsTask.live? _ _ rfl

theorem live_within (tasks : Multiset LimitsTask) :
    Multiset.card (tasks.filterMap LimitsTask.live?) ≤ (tasks.map LimitsTask.admittedTxs).sum ∧
      totalGas (tasks.filterMap LimitsTask.live?) ≤ (tasks.map LimitsTask.admittedGas).sum := by
  induction tasks using Multiset.induction_on with
  | empty => exact ⟨Nat.le_refl _, Nat.le_refl _⟩
  | cons task rest induction =>
      obtain ⟨txs, gas⟩ := induction
      rw [Multiset.map_cons, Multiset.sum_cons, Multiset.map_cons, Multiset.sum_cons]
      cases found : task.live? with
      | none =>
          rw [Multiset.filterMap_cons_none _ _ found]
          omega
      | some gasLimit =>
          cases task <;> cases found
          rw [live_reservation_cons, Multiset.card_cons, total_gas_cons]
          simp only [LimitsTask.admittedTxs, LimitsTask.admittedGas]
          omega

theorem live_idle (tasks : Multiset LimitsTask) (idle : ∀ task ∈ tasks, task.Settled) :
    Multiset.card (tasks.filterMap LimitsTask.live?) = (tasks.map LimitsTask.admittedTxs).sum ∧
      totalGas (tasks.filterMap LimitsTask.live?) = (tasks.map LimitsTask.admittedGas).sum ∧
      (tasks.map LimitsTask.refusedTxs).sum = 0 ∧ (tasks.map LimitsTask.refusedGas).sum = 0 := by
  induction tasks using Multiset.induction_on with
  | empty => exact ⟨rfl, rfl, rfl, rfl⟩
  | cons task rest induction =>
      rw [Multiset.forall_mem_cons] at idle
      obtain ⟨settled, idle⟩ := idle
      obtain ⟨txs, gas, refusedTxs, refusedGas⟩ := induction idle
      simp only [Multiset.map_cons, Multiset.sum_cons]
      rw [refusedTxs, refusedGas]
      cases task with
      | caller | committed =>
          rw [Multiset.filterMap_cons_none _ _ rfl, txs, gas]
          simp [LimitsTask.admittedTxs, LimitsTask.admittedGas, LimitsTask.refusedTxs,
            LimitsTask.refusedGas]
      | live reservation =>
          rw [live_reservation_cons, Multiset.card_cons, total_gas_cons, txs, gas]
          refine ⟨Nat.add_comm _ _, rfl, rfl, rfl⟩
      | _ => exact absurd settled id

/-- A run that loses no transaction keeps all gas in its account too. -/
theorem returning_gas_stays (sound : task.Sound) (moved : ReturningMoves round task after left) :
    GasStays round task ∧ after.unreturned = round.unreturned := by
  obtain ⟨⟨moved, _⟩, kept⟩ := moved
  cases moved with
  | tookGas open_gas =>
      obtain ⟨_, small⟩ := within_gas_limit sound
      have above := Int64.lt_iff_toInt_lt.mp open_gas
      have zero : (0 : Int64).toInt = 0 := rfl
      refine ⟨?_, rfl⟩
      simp only [GasStays]
      omega
  | overtookGas spent => exact absurd spent kept
  | drops free =>
      have nothing := UInt64.le_antisymm (UInt64.not_lt.mp free) UInt64.zero_le
      exact absurd ⟨nothing, rfl⟩ kept
  | _ => exact ⟨trivial, rfl⟩

theorem returning_run_kept {labels : List LimitsTask}
    (run : Run (Threads.Step ReturningMoves) (limitsPool limits) labels pool) :
    (∀ task ∈ pool.tasks, task.Sound) ∧ CountKept limits pool ∧ GasKept limits pool ∧
      pool.shared.unreturned = 0 := by
  apply run_invariant (fun pool => (∀ task ∈ pool.tasks, task.Sound) ∧ CountKept limits pool ∧
    GasKept limits pool ∧ pool.shared.unreturned = 0) _ _ run
  · intro pool task next ⟨sound, count, gas, unreturned⟩ step
    cases step with
    | @move round after task left rest moved =>
        have taskSound := sound task (Multiset.mem_cons_self _ _)
        obtain ⟨stays, same⟩ := returning_gas_stays taskSound moved
        have counted := count_kept_step sound count (.move rest moved.1)
        have gassed := gas_kept_step sound gas stays (.move rest moved.1.1)
        refine ⟨?_, counted, gassed, same.trans unreturned⟩
        intro other member
        rcases Multiset.mem_add.mp member with fresh | earlier
        · exact moves_sound taskSound moved.1.1 other fresh
        · exact sound other (Multiset.mem_cons_of_mem earlier)
  · exact ⟨limits_sound, count_kept_start, gas_kept_start, rfl⟩

theorem covered_run_kept {labels : List LimitsTask}
    (run : Run (Threads.Step CoveredMoves) (limitsPool limits) labels pool) :
    (∀ task ∈ pool.tasks, task.Sound) ∧ CountKept limits pool ∧ GasKept limits pool ∧
      (totalGas pool.shared.committed : ℤ) + pool.load LimitsTask.admittedGas ≤
        max limits.overallGasLimit.toInt 0 := by
  apply run_invariant (fun pool => (∀ task ∈ pool.tasks, task.Sound) ∧ CountKept limits pool ∧
    GasKept limits pool ∧ (totalGas pool.shared.committed : ℤ) +
      pool.load LimitsTask.admittedGas ≤ max limits.overallGasLimit.toInt 0) _ _ run
  · intro pool task next ⟨sound, count, gas, within⟩ step
    cases step with
    | @move round after task left rest moved =>
        obtain ⟨counting, stays, covered⟩ := moved
        have counted := count_kept_step sound count (.move rest counting)
        have gassed := gas_kept_step sound gas stays (.move rest counting.1)
        have bounded := gas_within_step sound gas within covered (.move rest counting.1)
        refine ⟨?_, counted, gassed, bounded⟩
        intro other member
        rcases Multiset.mem_add.mp member with fresh | earlier
        · exact moves_sound (sound task (Multiset.mem_cons_self _ _)) counting.1 other fresh
        · exact sound other (Multiset.mem_cons_of_mem earlier)
  · refine ⟨limits_sound, count_kept_start, gas_kept_start, ?_⟩
    simp [limitsPool, Pool.load, totalGas, LimitsTask.admittedGas]

theorem counting_run_kept {labels : List LimitsTask}
    (run : Run (Threads.Step CountingMoves) (limitsPool limits) labels pool) :
    (∀ task ∈ pool.tasks, task.Sound) ∧ CountKept limits pool := by
  apply run_invariant (fun pool => (∀ task ∈ pool.tasks, task.Sound) ∧ CountKept limits pool)
    _ ⟨limits_sound, count_kept_start⟩ run
  intro pool task next ⟨sound, count⟩ step
  cases step with
  | @move round after task left rest moved =>
      refine ⟨?_, count_kept_step sound count (.move rest moved)⟩
      intro other member
      rcases Multiset.mem_add.mp member with fresh | earlier
      · exact moves_sound (sound task (Multiset.mem_cons_self _ _)) moved.1 other fresh
      · exact sound other (Multiset.mem_cons_of_mem earlier)

/-- A move that adds nothing to the unreturned transactions has lost none. -/
theorem unreturned_grows (moved : CountingMoves round task after left) :
    round.unreturned ≤ after.unreturned ∧
      (after.unreturned = round.unreturned → ReturningMoves round task after left) := by
  have counting := moved
  obtain ⟨moved, _⟩ := moved
  cases moved with
  | overtookGas spent | drops free =>
      refine ⟨Nat.le_succ _, fun same => absurd same (Nat.succ_ne_self _)⟩
  | tookGas open_gas =>
      refine ⟨Nat.le_refl _, fun _ => ⟨counting, fun spent => ?_⟩⟩
      exact absurd open_gas (Int64.not_lt.mpr spent)
  | commits =>
      refine ⟨Nat.le_refl _, fun _ => ⟨counting, ?_⟩⟩
      rintro ⟨nothing, same⟩
      rw [destroyed_committed nothing] at same
      exact absurd same (Multiset.singleton_ne_zero _)
  | releases refunds =>
      refine ⟨Nat.le_refl _, fun _ => ⟨counting, ?_⟩⟩
      rintro ⟨nothing, _⟩
      rw [nothing] at refunds
      exact UInt64.lt_irrefl 0 refunds
  | _ => exact ⟨Nat.le_refl _, fun _ => ⟨counting, id⟩⟩

theorem total_gas_add (left right : Multiset UInt64) :
    totalGas (left + right) = totalGas left + totalGas right := by
  rw [totalGas, Multiset.map_add, Multiset.sum_add, totalGas, totalGas]

theorem reservations_within (pool : LimitsPool) :
    Multiset.card (reservations pool) ≤
        Multiset.card pool.shared.committed + pool.load LimitsTask.admittedTxs ∧
      totalGas (reservations pool) ≤
        totalGas pool.shared.committed + pool.load LimitsTask.admittedGas := by
  obtain ⟨txs, gas⟩ := live_within pool.tasks
  rw [reservations, Multiset.card_add, total_gas_add]
  exact ⟨Nat.add_le_add_left txs _, Nat.add_le_add_left gas _⟩

theorem reservations_idle (idle : Idle pool) :
    Multiset.card (reservations pool) =
        Multiset.card pool.shared.committed + pool.load LimitsTask.admittedTxs ∧
      totalGas (reservations pool) =
        totalGas pool.shared.committed + pool.load LimitsTask.admittedGas ∧
      pool.load LimitsTask.refusedTxs = 0 ∧ pool.load LimitsTask.refusedGas = 0 := by
  obtain ⟨txs, gas, refusedTxs, refusedGas⟩ := live_idle pool.tasks idle
  rw [reservations, Multiset.card_add, total_gas_add, txs, gas]
  exact ⟨rfl, rfl, refusedTxs, refusedGas⟩

/-- In a run whose decrements of the count do not wrap, the idle limits are
conserved if and only if no move has lost a transaction. -/
theorem limits_conserved_iff (limits : AssemblyLimits) {labels : List LimitsTask}
    {pool : LimitsPool}
    (run : Run (Threads.Step CountingMoves) (limitsPool limits) labels pool) (idle : Idle pool) :
    Conserved limits pool ↔
      Run (Threads.Step ReturningMoves) (limitsPool limits) labels pool := by
  obtain ⟨count, gas, refusedTxs, refusedGas⟩ := reservations_idle idle
  constructor
  · intro conserved
    obtain ⟨_, kept⟩ := counting_run_kept run
    have total := kept.total
    have same := conserved.txs
    have unreturned : pool.shared.unreturned = 0 := by omega
    have costless := run_costless (fun pool : LimitsPool => pool.shared.unreturned)
      (fun _ _ _ step => by
        cases step with
        | move rest moved => exact (unreturned_grows moved).1)
      (fun _ _ _ step same => by
        cases step with
        | move rest moved => exact Threads.Step.move rest ((unreturned_grows moved).2 same))
      run
    exact costless.2 unreturned
  · intro returning
    obtain ⟨_, counted, gassed, unreturned⟩ := returning_run_kept returning
    have countTotal := counted.total
    have gasTotal := gassed.total
    constructor <;> omega

theorem call_enters {moves : Threads.Moves LimitsRound LimitsTask} {round : LimitsRound}
    (others : Multiset LimitsTask) (within : ¬ gasLimitPerTx < gasLimit)
    (called : moves round .caller round (.caller ::ₘ enteredTasks gasLimit)) :
    Threads.Step moves ⟨round, .caller ::ₘ others⟩ .caller
      ⟨round, .reserving gasLimit ::ₘ .caller ::ₘ others⟩ := by
  have entered := Threads.Step.move others called
  have swapped : .caller ::ₘ ({.reserving gasLimit} : Multiset LimitsTask) + others =
      .reserving gasLimit ::ₘ .caller ::ₘ others := by
    rw [Multiset.cons_add, Multiset.singleton_add, Multiset.cons_swap]
  rwa [enteredTasks, if_neg within, swapped] at entered

theorem positive_count {maxTxs : Int64} (counted : 0 < maxTxs) : maxTxs ≠ Int64.minValue := by
  rintro rfl
  exact absurd counted (by decide)

theorem refused_call_runs (limits : AssemblyLimits) (counted : 0 < limits.maxTxs)
    (spent : limits.overallGasLimit ≤ 0) (within : ¬ gasLimitPerTx < gasLimit) :
    Run (Threads.Step CountingMoves) (limitsPool limits)
      [.caller, .reserving gasLimit, .reservingGas gasLimit, .refusingGas gasLimit]
      { shared :=
          { limits := ((limits.takeTx).takeGas gasLimit).returnGas gasLimit
            committed := 0
            unreturned := 1 }
        tasks := {.caller} } := by
  let others : Multiset LimitsTask := {.caller}
  apply Run.cons (call_enters 0 within ⟨.called gasLimit, trivial⟩)
  apply Run.cons (Threads.Step.move others ⟨.tookTx counted, positive_count counted⟩)
  apply Run.cons (Threads.Step.move others ⟨.overtookGas spent, trivial⟩)
  apply Run.cons (Threads.Step.move others ⟨.returnedGas, trivial⟩)
  rw [zero_add]
  exact Run.nil _

def spentLimits : AssemblyLimits where
  maxTxs := 1
  overallGasLimit := 0

def refusedPool : LimitsPool where
  shared :=
    { limits := { maxTxs := 0, overallGasLimit := 0 }
      committed := 0
      unreturned := 1 }
  tasks := {.caller}

theorem refused_run : Run (Threads.Step CountingMoves) (limitsPool spentLimits)
    [.caller, .reserving 1, .reservingGas 1, .refusingGas 1] refusedPool :=
  refused_call_runs spentLimits (by decide) (by decide) (by decide)

theorem refused_idle : Idle refusedPool := by
  intro task member
  rw [Multiset.mem_singleton.mp member]
  trivial

theorem limits_conserved_refused : ¬ Run (Threads.Step ReturningMoves) (limitsPool spentLimits)
    [.caller, .reserving 1, .reservingGas 1, .refusingGas 1] refusedPool := by
  intro returning
  have conserved := (limits_conserved_iff spentLimits refused_run refused_idle).mpr returning
  exact absurd conserved.txs (by decide)

/-- The refused call returns its gas and not its transaction. -/
theorem refusal_loses_tx : ¬ ∀ (limits : AssemblyLimits) (labels : List LimitsTask)
    (pool : LimitsPool), Run (Threads.Step LimitsMoves) (limitsPool limits) labels pool →
      Idle pool → Conserved limits pool := by
  intro claimed
  have run : Run (Threads.Step LimitsMoves) (limitsPool spentLimits)
      [.caller, .reserving 1, .reservingGas 1, .refusingGas 1] refusedPool := by
    apply run_mono _ refused_run
    intro state label next step
    cases step with
    | move rest moved => exact .move rest moved.1
  exact absurd (claimed _ _ _ run refused_idle).txs (by decide)

/-- In a run whose decrements do not wrap and that admits no reservation beyond the
gas that is left, the reservations never exceed what the limits started with. -/
theorem limits_respected {limits : AssemblyLimits} (someTxs : 0 ≤ limits.maxTxs)
    (someGas : 0 ≤ limits.overallGasLimit) {labels : List LimitsTask} {pool : LimitsPool}
    (run : Run (Threads.Step CoveredMoves) (limitsPool limits) labels pool) :
    Respected limits pool := by
  obtain ⟨_, counted, _, gasWithin⟩ := covered_run_kept run
  obtain ⟨count, gas⟩ := reservations_within pool
  have countWithin := counted.within
  have txsPositive := Int64.le_iff_toInt_le.mp someTxs
  have gasPositive := Int64.le_iff_toInt_le.mp someGas
  have zero : (0 : Int64).toInt = 0 := rfl
  constructor <;> omega

/-- What is left when the count has refused one of three calls, and one of the other
two has committed. -/
def sharedPool : LimitsPool where
  shared :=
    { limits := { maxTxs := 0, overallGasLimit := 0 }
      committed := {2}
      unreturned := 0 }
  tasks := .committed { gas := 0 } ::ₘ .live { gas := 3 } ::ₘ {.caller}

theorem limits_respected_shared :
    Respected { maxTxs := 2, overallGasLimit := 5 } sharedPool ∧
      reservations sharedPool = {2, 3} := by
  let callers : Multiset LimitsTask := .caller ::ₘ 0
  let others : Multiset LimitsTask := .caller ::ₘ {.reservingGas 2}
  let waiting : Multiset LimitsTask := .caller ::ₘ .reservingGas 3 ::ₘ {.reservingGas 2}
  let holding : Multiset LimitsTask := .live { gas := 3 } ::ₘ {.caller}
  have counted : (2 - 1 - 1 : Int64) ≠ Int64.minValue := by decide
  have within : (-2 ^ 63 : ℤ) ≤ 5 - 3 := by decide
  have covered : (3 : ℤ) ≤ 5 := by decide
  have withinNext : (-2 ^ 63 : ℤ) ≤ 2 - 2 := by decide
  have coveredNext : (2 : ℤ) ≤ 2 := by decide
  have first : waiting = .reservingGas 3 ::ₘ others := Multiset.cons_swap _ _ _
  have next : (.live { gas := 3 } ::ₘ others : Multiset LimitsTask) =
      .reservingGas 2 ::ₘ holding := by decide
  have run : Run (Threads.Step CoveredMoves) (limitsPool { maxTxs := 2, overallGasLimit := 5 })
      [.caller, .reserving 2, .caller, .reserving 3, .caller, .reserving 1, .refusingTx,
        .reservingGas 3, .reservingGas 2, .live { gas := 2 }] sharedPool := by
    apply Run.cons (call_enters 0 (by decide) ⟨⟨.called 2, trivial⟩, trivial, trivial⟩)
    apply Run.cons (Threads.Step.move callers
      ⟨⟨.tookTx (by decide), positive_count (by decide)⟩, trivial, trivial⟩)
    rw [Multiset.singleton_add, Multiset.cons_swap]
    apply Run.cons (call_enters {.reservingGas 2} (by decide)
      ⟨⟨.called 3, trivial⟩, trivial, trivial⟩)
    apply Run.cons (Threads.Step.move others
      ⟨⟨.tookTx (by decide), positive_count (by decide)⟩, trivial, trivial⟩)
    rw [Multiset.singleton_add, Multiset.cons_swap]
    apply Run.cons (call_enters (.reservingGas 3 ::ₘ {.reservingGas 2}) (by decide)
      ⟨⟨.called 1, trivial⟩, trivial, trivial⟩)
    apply Run.cons (Threads.Step.move waiting
      ⟨⟨.overtookTx (by decide), counted⟩, trivial, trivial⟩)
    apply Run.cons (Threads.Step.move waiting ⟨⟨.returnedTx, trivial⟩, trivial, trivial⟩)
    rw [zero_add, first]
    apply Run.cons (Threads.Step.move others
      ⟨⟨.tookGas (by decide), trivial⟩, within, fun _ => covered⟩)
    rw [Multiset.singleton_add, next]
    apply Run.cons (Threads.Step.move holding
      ⟨⟨.tookGas (by decide), trivial⟩, withinNext, fun _ => coveredNext⟩)
    apply Run.cons (Threads.Step.move holding ⟨⟨.commits, trivial⟩, trivial, trivial⟩)
    exact Run.nil _
  exact ⟨limits_respected (by decide) (by decide) run, by decide⟩

def singleLimits (gas : Int64) : AssemblyLimits where
  maxTxs := 1
  overallGasLimit := gas

def admittedPool (gas : Int64) : LimitsPool where
  shared :=
    { limits := { maxTxs := 0, overallGasLimit := gas - 2 }
      committed := 0
      unreturned := 0 }
  tasks := .live { gas := 2 } ::ₘ {.caller}

/-- A gas limit of 2 is admitted with a gas of 1 left. -/
theorem last_reservation_exceeds_gas : ¬ ∀ (limits : AssemblyLimits) (labels : List LimitsTask)
    (pool : LimitsPool), Run (Threads.Step LimitsMoves) (limitsPool limits) labels pool →
      Respected limits pool := by
  intro claimed
  let others : Multiset LimitsTask := {.caller}
  have run : Run (Threads.Step LimitsMoves) (limitsPool (singleLimits 1))
      [.caller, .reserving 2, .reservingGas 2] (admittedPool 1) := by
    apply Run.cons (call_enters 0 (by decide) (.called 2))
    apply Run.cons (Threads.Step.move others (.tookTx (by decide)))
    apply Run.cons (Threads.Step.move others (.tookGas (by decide)))
    exact Run.nil _
  exact absurd (claimed _ _ _ run).gas (by decide)

end Scs
