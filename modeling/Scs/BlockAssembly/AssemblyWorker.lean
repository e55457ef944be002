import Mathlib.Algebra.Group.Action.Defs
import Mathlib.Algebra.Order.BigOperators.Group.Multiset
import Scs.BlockAssembly.Limits
import Scs.TransactionContext.OwnMoves

/-!
# The workers that assemble a block (`block_assembly/assembly_worker.cc`)

Every worker takes transactions from the mempool, reserves their share of the
limits, executes them on the one block, and commits or returns what it has
reserved. The accesses of all workers interleave in any order.
-/

namespace Scs

set_option autoImplicit false

open Runs Threads

section Model

variable {Tx Database : Type}

/-- What the workers share, with what has become of the transactions. The mempool
is what `get_new_tx` hands out from now on; a transaction is named by its place
there, so equal transactions are told apart. -/
structure AssemblyRound (Tx Database : Type) where
  mempool : List Tx
  limits : LimitsRound
  block : BlockExecution Tx Database
  dropped : Multiset Tx
  failed : Multiset Tx
  succeeded : Multiset Tx

/-- A worker by what it does next: `wait_for_opening`, `get_new_tx`, an access of
`reserve_tx`, a move of `execute`, or an access of `~Reservation`. -/
inductive WorkerTask (Tx : Type) where
  | waiting
  | asking
  | limiting (tx : Tx) (task : LimitsTask)
  | executing (tx : Tx) (reservation : Reservation)
  | releasing (task : LimitsTask)
  deriving DecidableEq

namespace WorkerTask

def limits? : WorkerTask Tx → Option LimitsTask
  | .limiting _ task | .releasing task => some task
  | .executing _ reservation => some (.live reservation)
  | _ => none

/-- A call of `reserve_tx` goes on, or has returned the reservation. -/
def reserved (tx : Tx) : LimitsTask → WorkerTask Tx
  | .live reservation => .executing tx reservation
  | task => .limiting tx task

def released (left : Multiset LimitsTask) : Multiset (WorkerTask Tx) :=
  if left = 0 then {.waiting} else left.map .releasing

end WorkerTask

variable [DecidableEq Tx] (cryptoShorthash : CryptoShorthash) (library : ContractLibrary)
  (store : StateStore Database) (programs : Tx → Program) (gasLimit : Tx → UInt64)

inductive AssemblyMoves : Threads.Moves (AssemblyRound Tx Database) (WorkerTask Tx)
  | opened {round : AssemblyRound Tx Database} :
      AssemblyMoves round .waiting round {.asking}
  | shutDown {round : AssemblyRound Tx Database} :
      AssemblyMoves round .waiting round 0
  | missed {round : AssemblyRound Tx Database} :
      -- What the mempool still hands out may be added later.
      AssemblyMoves round .asking round 0
  | took {round : AssemblyRound Tx Database} {tx : Tx} {rest : List Tx}
      (next : round.mempool = tx :: rest) (fits : ¬ gasLimitPerTx < gasLimit tx) :
      AssemblyMoves round .asking { round with mempool := rest }
        {.limiting tx (.reserving (gasLimit tx))}
  | tooLarge {round : AssemblyRound Tx Database} {tx : Tx} {rest : List Tx}
      (next : round.mempool = tx :: rest) (large : gasLimitPerTx < gasLimit tx) :
      AssemblyMoves round .asking
        { round with mempool := rest, dropped := tx ::ₘ round.dropped } 0
  | reserves {round : AssemblyRound Tx Database} {tx : Tx} {task next : LimitsTask}
      {after : LimitsRound} (moved : LimitsMoves round.limits task after {next}) :
      AssemblyMoves round (.limiting tx task) { round with limits := after } {.reserved tx next}
  | turnedAway {round : AssemblyRound Tx Database} {tx : Tx} {task : LimitsTask}
      {after : LimitsRound} (moved : LimitsMoves round.limits task after 0) :
      -- The transaction is gone from the mempool, and the worker stops.
      AssemblyMoves round (.limiting tx task)
        { round with limits := after, dropped := tx ::ₘ round.dropped } 0
  | executes {round : AssemblyRound Tx Database} {tx : Tx} {reservation : Reservation}
      {move : BlockMove Tx} {next : BlockExecution Tx Database}
      (own : OwnMove round.block tx move)
      (moves : MovesBlock cryptoShorthash library store programs round.block move next) :
      AssemblyMoves round (.executing tx reservation) { round with block := next }
        {.executing tx reservation}
  | succeeded {round : AssemblyRound Tx Database} {tx : Tx} {reservation : Reservation}
      {after : LimitsRound} (finished : round.block.Finished tx)
      (committing : round.block.books.phase tx = .committing)
      (moved : LimitsMoves round.limits (.live reservation) after
        {.committed reservation.commit}) :
      AssemblyMoves round (.executing tx reservation)
        { round with limits := after, succeeded := tx ::ₘ round.succeeded }
        {.releasing (.committed reservation.commit)}
  | failed {round : AssemblyRound Tx Database} {tx : Tx} {reservation : Reservation}
      {after : LimitsRound} (finished : round.block.Finished tx)
      (aborting : round.block.books.phase tx = .aborting)
      (moved : LimitsMoves round.limits (.live reservation) after reservation.destroyed) :
      AssemblyMoves round (.executing tx reservation)
        { round with limits := after, failed := tx ::ₘ round.failed }
        (WorkerTask.released reservation.destroyed)
  | releases {round : AssemblyRound Tx Database} {task : LimitsTask} {after : LimitsRound}
      {left : Multiset LimitsTask} (moved : LimitsMoves round.limits task after left) :
      AssemblyMoves round (.releasing task) { round with limits := after }
        (WorkerTask.released left)

abbrev AssemblyPool (Tx Database : Type) := Pool (AssemblyRound Tx Database) (WorkerTask Tx)

/-- `start_assembly_threads`, with this many workers. -/
def assemblyPool (txs : List Tx) (limits : AssemblyLimits) (before : GlobalContext Database)
    (workers : ℕ) : AssemblyPool Tx Database where
  shared :=
    { mempool := txs
      limits := { limits := limits, committed := 0, unreturned := 0 }
      block := .start before
      dropped := 0
      failed := 0
      succeeded := 0 }
  tasks := Multiset.replicate workers .waiting

end Model

/-! ## The limits -/

section Limits

variable {Tx Database : Type} {limits : AssemblyLimits} {round after : LimitsRound}
  {task : LimitsTask} {left : Multiset LimitsTask} {pool next : LimitsPool}

def limitsTasks (tasks : Multiset (WorkerTask Tx)) : Multiset LimitsTask :=
  tasks.filterMap WorkerTask.limits?

def limitsView (pool : AssemblyPool Tx Database) : LimitsPool where
  shared := pool.shared.limits
  tasks := .caller ::ₘ limitsTasks pool.tasks

@[simp] theorem limits_tasks_zero : limitsTasks (0 : Multiset (WorkerTask Tx)) = 0 := rfl

@[simp] theorem limits_tasks_add (left rest : Multiset (WorkerTask Tx)) :
    limitsTasks (left + rest) = limitsTasks left + limitsTasks rest :=
  Multiset.filterMap_add _ _ _

theorem limits_tasks_cons (task : WorkerTask Tx) (rest : Multiset (WorkerTask Tx)) :
    limitsTasks (task ::ₘ rest) = limitsTasks {task} + limitsTasks rest := by
  rw [← Multiset.singleton_add, limits_tasks_add]

theorem limits_tasks_some {task : WorkerTask Tx} {limitsTask : LimitsTask}
    (found : task.limits? = some limitsTask) : limitsTasks {task} = {limitsTask} :=
  Multiset.filterMap_cons_some WorkerTask.limits? _ 0 found

theorem limits_tasks_reserved (tx : Tx) (task : LimitsTask) :
    limitsTasks {WorkerTask.reserved tx task} = {task} := by
  apply limits_tasks_some
  cases task <;> rfl

theorem limits_tasks_released (left : Multiset LimitsTask) :
    limitsTasks (WorkerTask.released left : Multiset (WorkerTask Tx)) = left := by
  unfold WorkerTask.released
  split_ifs with nothing
  · rw [nothing]
    rfl
  · rw [limitsTasks, Multiset.filterMap_map]
    exact Multiset.filterMap_some left

theorem limits_tasks_card (tasks : Multiset (WorkerTask Tx)) :
    Multiset.card (limitsTasks tasks) ≤ Multiset.card tasks :=
  Quot.inductionOn tasks fun entries => List.length_filterMap_le _ entries

/-! ### What the counters hold however many workers there are -/

/-- The admitted gas exceeds the limit by less than one transaction. This is all that
`reserve_tx` ensures, as it compares before it subtracts. -/
def GasNearly (limits : AssemblyLimits) (pool : LimitsPool) : Prop :=
  (totalGas pool.shared.committed : ℤ) + pool.load LimitsTask.admittedGas ≤
    limits.overallGasLimit.toInt + (gasLimitPerTx.toNat - 1)

structure LimitsKept (limits : AssemblyLimits) (pool : LimitsPool) : Prop where
  sound : ∀ task ∈ pool.tasks, task.Sound
  count : CountKept limits pool
  gas : GasKept limits pool
  nearly : GasNearly limits pool

theorem refused_txs_le (tasks : Multiset LimitsTask) :
    (tasks.map LimitsTask.refusedTxs).sum ≤ Multiset.card tasks := by
  have each : ∀ amount ∈ tasks.map LimitsTask.refusedTxs, amount ≤ 1 := by
    intro amount member
    obtain ⟨task, _, rfl⟩ := Multiset.mem_map.mp member
    cases task with
    | refusingTx => exact le_refl 1
    | _ => exact Nat.zero_le 1
  have bounded := Multiset.sum_le_card_nsmul _ _ each
  rw [Multiset.card_map, smul_eq_mul, mul_one] at bounded
  exact bounded

theorem refused_gas_le {tasks : Multiset LimitsTask} (sound : ∀ task ∈ tasks, task.Sound) :
    (tasks.map LimitsTask.refusedGas).sum ≤ Multiset.card tasks * 10000000 := by
  have each : ∀ amount ∈ tasks.map LimitsTask.refusedGas, amount ≤ 10000000 := by
    intro amount member
    obtain ⟨task, inside, rfl⟩ := Multiset.mem_map.mp member
    have bounded := sound task inside
    cases task with
    | refusingGas gasLimit => exact (within_gas_limit bounded).2
    | _ => exact Nat.zero_le _
  have bounded := Multiset.sum_le_card_nsmul _ _ each
  rw [Multiset.card_map, smul_eq_mul] at bounded
  exact bounded

/-- With at most `2 ^ 32` callers no counter wraps: each takes one transaction, and no more
gas than one transaction may ask for. -/
theorem limits_stay (kept : LimitsKept limits pool) (someTxs : 0 ≤ limits.maxTxs.toInt)
    (few : Multiset.card pool.tasks ≤ 2 ^ 32) (member : task ∈ pool.tasks) :
    CountStays pool.shared task ∧ GasStays pool.shared task := by
  have size : gasLimitPerTx.toNat = 10000000 := rfl
  constructor
  · cases task with
    | reserving gasLimit =>
        have refused := refused_txs_le pool.tasks
        have total := kept.count.total
        have within := kept.count.within
        rw [max_eq_left someTxs] at within
        rw [Pool.load, Pool.load] at total
        rw [Pool.load] at within
        intro lowest
        rw [lowest] at total
        have least : Int64.minValue.toInt = -2 ^ 63 := rfl
        omega
    | _ => trivial
  · cases task with
    | reservingGas gasLimit =>
        have small := (within_gas_limit (kept.sound _ member)).2
        have refused := refused_gas_le kept.sound
        have total := kept.gas.total
        have nearly := kept.nearly
        rw [Pool.load, Pool.load] at total
        rw [GasNearly, Pool.load, size] at nearly
        simp only [GasStays]
        omega
    | _ => trivial

theorem gas_nearly_step {rest : Multiset LimitsTask} (sound : task.Sound)
    (gas : GasKept limits ⟨round, task ::ₘ rest⟩) (nearly : GasNearly limits ⟨round, task ::ₘ rest⟩)
    (moved : LimitsMoves round task after left) : GasNearly limits ⟨after, left + rest⟩ := by
  have size : gasLimitPerTx.toNat = 10000000 := rfl
  have total := gas.total
  rw [load_cons, load_cons] at total
  rw [GasNearly, load_cons, size] at nearly
  rw [GasNearly, load_add, size]
  simp only [Nat.cast_add] at total nearly ⊢
  rcases moves_gas_admitted sound moved with kept | ⟨gasLimit, rfl, open_gas, admitted⟩
  · omega
  · have small := (within_gas_limit sound).2
    have positive : 0 < round.limits.overallGasLimit.toInt := Int64.lt_iff_toInt_lt.mp open_gas
    omega

theorem limits_kept_step (someTxs : 0 ≤ limits.maxTxs.toInt)
    (few : Multiset.card pool.tasks ≤ 2 ^ 32) (kept : LimitsKept limits pool)
    (step : Threads.Step LimitsMoves pool task next) : LimitsKept limits next := by
  cases step with
  | @move round after task left rest moved =>
      have member : task ∈ task ::ₘ rest := Multiset.mem_cons_self _ _
      have sound := kept.sound task member
      obtain ⟨counts, stays⟩ := limits_stay kept someTxs few member
      constructor
      · intro other inside
        rcases Multiset.mem_add.mp inside with fresh | earlier
        · exact moves_sound sound moved other fresh
        · exact kept.sound other (Multiset.mem_cons_of_mem earlier)
      · exact count_kept_step kept.sound kept.count (.move rest ⟨moved, counts⟩)
      · exact gas_kept_step kept.sound kept.gas stays (.move rest moved)
      · exact gas_nearly_step sound kept.gas kept.nearly moved

theorem limits_kept_start (someGas : 0 ≤ limits.overallGasLimit.toInt) :
    LimitsKept limits (limitsPool limits) := by
  refine ⟨limits_sound, count_kept_start, gas_kept_start, ?_⟩
  have size : gasLimitPerTx.toNat = 10000000 := rfl
  have committed : totalGas (limitsPool limits).shared.committed = 0 := rfl
  have admitted : (limitsPool limits).load LimitsTask.admittedGas = 0 := rfl
  rw [GasNearly, committed, admitted, size]
  omega

/-! ### The workers are callers of the limits -/

section Callers

variable [DecidableEq Tx] {cryptoShorthash : CryptoShorthash} {library : ContractLibrary}
  {store : StateStore Database} {programs : Tx → Program} {gasLimit : Tx → UInt64}
  {before : AssemblyPool Tx Database} {label : WorkerTask Tx} {final : AssemblyPool Tx Database}

theorem assembly_step_limits (step : Threads.Step (AssemblyMoves cryptoShorthash library store
    programs gasLimit) before label final) : limitsView final = limitsView before ∨
      ∃ task, Threads.Step LimitsMoves (limitsView before) task (limitsView final) := by
  cases step with
  | @move round after _ left rest moved =>
      have same (shared : after.limits = round.limits)
          (tasks : limitsTasks left = limitsTasks {label}) :
          limitsView (⟨after, left + rest⟩ : AssemblyPool Tx Database) =
            limitsView ⟨round, label ::ₘ rest⟩ := by
        unfold limitsView
        simp only [shared, limits_tasks_add, tasks, limits_tasks_cons label rest]
      have accesses {limitsTask : LimitsTask} (own : label.limits? = some limitsTask)
          (moved : LimitsMoves round.limits limitsTask after.limits (limitsTasks left)) :
          Threads.Step LimitsMoves (limitsView ⟨round, label ::ₘ rest⟩) limitsTask
            (limitsView (⟨after, left + rest⟩ : AssemblyPool Tx Database)) := by
        have stepped := Threads.Step.move (.caller ::ₘ limitsTasks rest) moved
        unfold limitsView
        simp only [limits_tasks_add, limits_tasks_cons label rest, limits_tasks_some own,
          Multiset.singleton_add, Multiset.add_cons] at stepped ⊢
        rw [Multiset.cons_swap]
        exact stepped
      cases moved with
      | opened => exact .inl (same rfl rfl)
      | shutDown => exact .inl (same rfl rfl)
      | missed => exact .inl (same rfl rfl)
      | tooLarge next large => exact .inl (same rfl rfl)
      | executes own moves => exact .inl (same rfl rfl)
      | @took _ tx _ next fits =>
          right
          have calls : LimitsMoves round.limits .caller round.limits
              (.caller ::ₘ enteredTasks (gasLimit tx)) := .called (gasLimit tx)
          rw [enteredTasks, if_neg fits] at calls
          have asking : limitsTasks {(.asking : WorkerTask Tx)} = 0 := rfl
          have stepped := Threads.Step.move (limitsTasks rest) calls
          rw [Multiset.cons_add] at stepped
          refine ⟨.caller, ?_⟩
          unfold limitsView
          simp only [limits_tasks_add, limits_tasks_cons .asking rest, asking, zero_add]
          exact stepped
      | @reserves _ tx task next _ moved =>
          refine .inr ⟨task, accesses rfl ?_⟩
          rw [limits_tasks_reserved]
          exact moved
      | turnedAway moved => exact .inr ⟨_, accesses rfl moved⟩
      | succeeded finished committing moved => exact .inr ⟨_, accesses rfl moved⟩
      | failed finished aborting moved =>
          refine .inr ⟨_, accesses rfl ?_⟩
          rw [limits_tasks_released]
          exact moved
      | releases moved =>
          refine .inr ⟨_, accesses rfl ?_⟩
          rw [limits_tasks_released]
          exact moved

end Callers

end Limits

end Scs
