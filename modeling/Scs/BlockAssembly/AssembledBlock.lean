import Scs.BlockAssembly.AssemblyWorker
import Scs.TransactionContext.ProposedBlock

/-!
# The block that the workers assemble (`block_assembly/assembly_worker.cc`)

Whatever the interleaving of the workers, the block keeps to the limits, and every
transaction that leaves the mempool is accounted for. When the last worker has
stopped, no rewind is open and every closure has run.
-/

namespace Scs

set_option autoImplicit false

open Runs Threads TwoPhase

variable {Tx Database : Type}

/-! ## What the workers have in hand -/

def WorkerTask.reserving? : WorkerTask Tx → Option Tx
  | .limiting tx _ => some tx
  | _ => none

def WorkerTask.executing? : WorkerTask Tx → Option Tx
  | .executing tx _ => some tx
  | _ => none

/-- The transactions for which a call of `reserve_tx` is under way. -/
def inReserve (tasks : Multiset (WorkerTask Tx)) : Multiset Tx :=
  tasks.filterMap WorkerTask.reserving?

def inExecution (tasks : Multiset (WorkerTask Tx)) : Multiset Tx :=
  tasks.filterMap WorkerTask.executing?

def executedTxs (pool : AssemblyPool Tx Database) : Multiset Tx :=
  pool.shared.succeeded + pool.shared.failed + inExecution pool.tasks

@[simp] theorem in_reserve_add (left rest : Multiset (WorkerTask Tx)) :
    inReserve (left + rest) = inReserve left + inReserve rest :=
  Multiset.filterMap_add _ _ _

@[simp] theorem in_execution_add (left rest : Multiset (WorkerTask Tx)) :
    inExecution (left + rest) = inExecution left + inExecution rest :=
  Multiset.filterMap_add _ _ _

theorem in_reserve_cons (task : WorkerTask Tx) (rest : Multiset (WorkerTask Tx)) :
    inReserve (task ::ₘ rest) = inReserve {task} + inReserve rest := by
  rw [← Multiset.singleton_add, in_reserve_add]

theorem in_execution_cons (task : WorkerTask Tx) (rest : Multiset (WorkerTask Tx)) :
    inExecution (task ::ₘ rest) = inExecution {task} + inExecution rest := by
  rw [← Multiset.singleton_add, in_execution_add]

theorem filter_map_none {Task Value : Type} {view : Task → Option Value} {tasks : Multiset Task}
    (none : ∀ task ∈ tasks, view task = none) : tasks.filterMap view = 0 := by
  apply Multiset.eq_zero_of_forall_notMem
  intro value member
  obtain ⟨task, inside, found⟩ := (Multiset.mem_filterMap view tasks).mp member
  rw [none task inside] at found
  cases found

theorem released_idle (Tx : Type) (left : Multiset LimitsTask) :
    inReserve (WorkerTask.released left : Multiset (WorkerTask Tx)) = 0 ∧
      inExecution (WorkerTask.released left : Multiset (WorkerTask Tx)) = 0 := by
  unfold WorkerTask.released
  split_ifs with nothing
  · exact ⟨rfl, rfl⟩
  · constructor
    · apply filter_map_none
      intro task member
      obtain ⟨_, _, rfl⟩ := Multiset.mem_map.mp member
      rfl
    · apply filter_map_none
      intro task member
      obtain ⟨_, _, rfl⟩ := Multiset.mem_map.mp member
      rfl

/-! ## What a reservation is for -/

/-- A call of `reserve_tx` for this much gas. -/
inductive Reserving (gas : UInt64) : LimitsTask → Prop
  | reserving : Reserving gas (.reserving gas)
  | refusingTx : Reserving gas .refusingTx
  | reservingGas : Reserving gas (.reservingGas gas)
  | refusingGas : Reserving gas (.refusingGas gas)

inductive Ending : LimitsTask → Prop
  | committed (reservation : Reservation) : Ending (.committed reservation)
  | undoing (gas : UInt64) : Ending (.undoing gas)
  | undoingGas (gas : UInt64) : Ending (.undoingGas gas)

/-- What a worker holds is for the transaction that it has in hand. -/
inductive Carries (gasLimit : Tx → UInt64) : WorkerTask Tx → Prop
  | waiting : Carries gasLimit .waiting
  | asking : Carries gasLimit .asking
  | limiting {tx : Tx} {task : LimitsTask} (under_way : Reserving (gasLimit tx) task) :
      Carries gasLimit (.limiting tx task)
  | executing {tx : Tx} {reservation : Reservation} (own : reservation.gas = gasLimit tx) :
      Carries gasLimit (.executing tx reservation)
  | releasing {task : LimitsTask} (ending : Ending task) : Carries gasLimit (.releasing task)

section Limits

variable {round after : LimitsRound} {task : LimitsTask} {left : Multiset LimitsTask}
  {gas : UInt64} {reservation : Reservation} {gasLimit : Tx → UInt64}

theorem destroyed_not_committed {other : Reservation} :
    reservation.destroyed ≠ {.committed other} := by
  intro impossible
  unfold Reservation.destroyed at impossible
  split_ifs at impossible
  · cases Multiset.singleton_inj.mp impossible
  · exact Multiset.singleton_ne_zero _ impossible.symm

theorem destroyed_ends : Multiset.card reservation.destroyed ≤ 1 ∧
    ∀ next ∈ reservation.destroyed, Ending next := by
  unfold Reservation.destroyed
  split_ifs
  · refine ⟨le_refl 1, fun next member => ?_⟩
    rw [Multiset.mem_singleton.mp member]
    exact .undoing _
  · exact ⟨Nat.zero_le 1, fun next member => absurd member (Multiset.notMem_zero next)⟩

theorem reserving_moves (own : Reserving gas task) (moved : LimitsMoves round task after left) :
    after.committed = round.committed ∧
      ∀ next ∈ left, Reserving gas next ∨ next = .live { gas := gas } := by
  cases own with
  | reserving =>
      cases moved with
      | tookTx open_count =>
          refine ⟨rfl, fun next member => .inl ?_⟩
          rw [Multiset.mem_singleton.mp member]
          exact .reservingGas
      | overtookTx spent =>
          refine ⟨rfl, fun next member => .inl ?_⟩
          rw [Multiset.mem_singleton.mp member]
          exact .refusingTx
  | refusingTx =>
      cases moved with
      | returnedTx => exact ⟨rfl, fun next member => absurd member (Multiset.notMem_zero next)⟩
  | reservingGas =>
      cases moved with
      | tookGas open_gas => exact ⟨rfl, fun next member => .inr (Multiset.mem_singleton.mp member)⟩
      | overtookGas spent =>
          refine ⟨rfl, fun next member => .inl ?_⟩
          rw [Multiset.mem_singleton.mp member]
          exact .refusingGas
  | refusingGas =>
      cases moved with
      | returnedGas => exact ⟨rfl, fun next member => absurd member (Multiset.notMem_zero next)⟩

theorem ending_moves (own : Ending task) (moved : LimitsMoves round task after left) :
    after.committed = round.committed ∧ Multiset.card left ≤ 1 ∧ ∀ next ∈ left, Ending next := by
  cases own with
  | committed reservation =>
      cases moved with
      | recommits =>
          refine ⟨rfl, le_refl 1, fun next member => ?_⟩
          rw [Multiset.mem_singleton.mp member]
          exact .committed _
      | ends => exact ⟨rfl, destroyed_ends⟩
  | undoing gas =>
      cases moved with
      | undidTx =>
          refine ⟨rfl, le_refl 1, fun next member => ?_⟩
          rw [Multiset.mem_singleton.mp member]
          exact .undoingGas _
  | undoingGas gas =>
      cases moved with
      | undidGas =>
          exact ⟨rfl, Nat.zero_le 1, fun next member => absurd member (Multiset.notMem_zero next)⟩

theorem live_moves (moved : LimitsMoves round (.live reservation) after left) :
    (left = {.committed reservation.commit} ∧
        after.committed = reservation.gas ::ₘ round.committed) ∨
      (left = reservation.destroyed ∧ after.committed = round.committed) := by
  cases moved with
  | commits => exact .inl ⟨rfl, rfl⟩
  | releases refunds => exact .inr ⟨rfl, rfl⟩
  | drops free => exact .inr ⟨rfl, rfl⟩

theorem released_card (Tx : Type) (few : Multiset.card left ≤ 1) :
    Multiset.card (WorkerTask.released left : Multiset (WorkerTask Tx)) ≤ 1 := by
  unfold WorkerTask.released
  split_ifs
  · exact le_refl 1
  · rw [Multiset.card_map]
    exact few

theorem released_carries (ends : ∀ next ∈ left, Ending next) :
    ∀ next ∈ (WorkerTask.released left : Multiset (WorkerTask Tx)), Carries gasLimit next := by
  intro next member
  unfold WorkerTask.released at member
  split_ifs at member
  · rw [Multiset.mem_singleton.mp member]
    exact .waiting
  · obtain ⟨task, inside, rfl⟩ := Multiset.mem_map.mp member
    exact .releasing (ends task inside)

theorem in_execution_admitted {tasks : Multiset (WorkerTask Tx)}
    (carries : ∀ task ∈ tasks, Carries gasLimit task) :
    Multiset.card (inExecution tasks) ≤ ((limitsTasks tasks).map LimitsTask.admittedTxs).sum ∧
      totalGas ((inExecution tasks).map gasLimit) ≤
        ((limitsTasks tasks).map LimitsTask.admittedGas).sum := by
  induction tasks using Multiset.induction_on with
  | empty => exact ⟨le_refl _, le_refl _⟩
  | cons task rest induction =>
      obtain ⟨own, others⟩ := Multiset.forall_mem_cons.mp carries
      obtain ⟨txs, gas⟩ := induction others
      rw [in_execution_cons, limits_tasks_cons]
      simp only [Multiset.map_add, Multiset.sum_add, Multiset.card_add, total_gas_add]
      cases own with
      | @executing tx reservation own =>
          have live : limitsTasks {WorkerTask.executing tx reservation} = {.live reservation} := rfl
          have executing : inExecution {WorkerTask.executing tx reservation} = {tx} := rfl
          rw [live, executing]
          simp only [Multiset.map_singleton, Multiset.sum_singleton, Multiset.card_singleton,
            LimitsTask.admittedTxs, LimitsTask.admittedGas, own]
          have single : totalGas {gasLimit tx} = (gasLimit tx).toNat := Multiset.sum_singleton _
          rw [single]
          omega
      | _ =>
          have none : totalGas ((0 : Multiset Tx).map gasLimit) = 0 := rfl
          constructor
          · exact (Nat.zero_add _).le.trans (txs.trans (Nat.le_add_left _ _))
          · exact (Nat.zero_add _).le.trans (gas.trans (Nat.le_add_left _ _))

end Limits

/-! ## The accounts of the workers -/

section Workers

variable [DecidableEq Tx] {cryptoShorthash : CryptoShorthash} {library : ContractLibrary}
  {store : StateStore Database} {programs : Tx → Program} {gasLimit : Tx → UInt64}
  {txs : List Tx} {limits : AssemblyLimits} {workers : ℕ} {before : GlobalContext Database}
  {round after : AssemblyRound Tx Database} {task label : WorkerTask Tx}
  {left : Multiset (WorkerTask Tx)} {pool next : AssemblyPool Tx Database}

structure WorkersKept (txs : List Tx) (limits : AssemblyLimits) (gasLimit : Tx → UInt64)
    (workers : ℕ) (pool : AssemblyPool Tx Database) : Prop where
  crowd : Multiset.card pool.tasks + Multiset.card pool.shared.dropped ≤ workers
  limits : LimitsKept limits (limitsView pool)
  carries : ∀ task ∈ pool.tasks, Carries gasLimit task
  booked : pool.shared.limits.committed = pool.shared.succeeded.map gasLimit
  accounted : (txs : Multiset Tx) = pool.shared.mempool + pool.shared.dropped +
    inReserve pool.tasks + executedTxs pool

structure AccessKept (gasLimit : Tx → UInt64) (round : AssemblyRound Tx Database)
    (task : WorkerTask Tx) (after : AssemblyRound Tx Database)
    (left : Multiset (WorkerTask Tx)) : Prop where
  crowd : Multiset.card left + Multiset.card after.dropped ≤ 1 + Multiset.card round.dropped
  carries : ∀ next ∈ left, Carries gasLimit next
  booked : round.limits.committed = round.succeeded.map gasLimit →
    after.limits.committed = after.succeeded.map gasLimit
  accounted : (after.mempool : Multiset Tx) + after.dropped + inReserve left +
      (after.succeeded + after.failed + inExecution left) =
    round.mempool + round.dropped + inReserve {task} +
      (round.succeeded + round.failed + inExecution {task})

theorem assembly_moves_kept (carries : Carries gasLimit task)
    (moved : AssemblyMoves cryptoShorthash library store programs gasLimit round task after left) :
    AccessKept gasLimit round task after left := by
  have none : ∀ next ∈ (0 : Multiset (WorkerTask Tx)), Carries gasLimit next :=
    fun next member => absurd member (Multiset.notMem_zero next)
  have one {next : WorkerTask Tx} (own : Carries gasLimit next) :
      ∀ other ∈ ({next} : Multiset (WorkerTask Tx)), Carries gasLimit other := by
    intro other member
    rw [Multiset.mem_singleton.mp member]
    exact own
  cases moved with
  | opened => exact ⟨le_refl _, one .asking, id, rfl⟩
  | shutDown =>
      refine ⟨?_, none, id, rfl⟩
      rw [Multiset.card_zero]
      omega
  | missed =>
      refine ⟨?_, none, id, rfl⟩
      rw [Multiset.card_zero]
      omega
  | @took _ tx rest next fits =>
      refine ⟨le_refl _, one (.limiting .reserving), id, ?_⟩
      have own : inReserve {WorkerTask.limiting tx (.reserving (gasLimit tx))} = {tx} := rfl
      have asking : inReserve {(.asking : WorkerTask Tx)} = 0 := rfl
      have idle : inExecution {WorkerTask.limiting tx (.reserving (gasLimit tx))} =
          inExecution {.asking} := rfl
      rw [own, asking, idle, next, ← Multiset.cons_coe, ← Multiset.singleton_add]
      simp only [add_zero]
      abel
  | @tooLarge _ tx rest next large =>
      refine ⟨?_, none, id, ?_⟩
      · simp only [Multiset.card_cons, Multiset.card_zero]
        omega
      · have asking : inReserve {(.asking : WorkerTask Tx)} = inReserve 0 := rfl
        have idle : inExecution {(.asking : WorkerTask Tx)} = inExecution 0 := rfl
        simp only [asking, idle, next, ← Multiset.cons_coe, ← Multiset.singleton_add]
        abel
  | @reserves _ tx limitsTask next _ moved =>
      cases carries with
      | limiting under_way =>
          obtain ⟨committed, goes⟩ := reserving_moves under_way moved
          have own := goes next (Multiset.mem_singleton_self next)
          have limiting : inReserve {WorkerTask.limiting tx limitsTask} = {tx} := rfl
          have idle : inExecution {WorkerTask.limiting tx limitsTask} = 0 := rfl
          refine ⟨le_refl _, one ?_, fun booked => committed.trans booked, ?_⟩
          · rcases own with going | rfl
            · cases going <;> exact .limiting (by constructor)
            · exact .executing rfl
          · have moves : inReserve {WorkerTask.reserved tx next} +
                inExecution {WorkerTask.reserved tx next} = {tx} := by
              cases next <;> rfl
            rw [limiting, idle, ← moves]
            simp only [add_zero]
            abel
  | @turnedAway _ tx limitsTask _ moved =>
      cases carries with
      | limiting under_way =>
          obtain ⟨committed, _⟩ := reserving_moves under_way moved
          have limiting : inReserve {WorkerTask.limiting tx limitsTask} = {tx} := rfl
          have idle : inExecution {WorkerTask.limiting tx limitsTask} = inExecution 0 := rfl
          have nothing : inReserve (0 : Multiset (WorkerTask Tx)) = 0 := rfl
          refine ⟨?_, none, fun booked => committed.trans booked, ?_⟩
          · simp only [Multiset.card_cons, Multiset.card_zero]
            omega
          · rw [limiting, idle, nothing, ← Multiset.singleton_add tx round.dropped]
            simp only [add_zero]
            abel
  | executes own moves => exact ⟨le_refl _, one carries, id, rfl⟩
  | @succeeded _ tx reservation _ finished committing moved =>
      cases carries with
      | executing own =>
          have executing : inExecution {WorkerTask.executing tx reservation} = {tx} := rfl
          have idle : inExecution
            {(.releasing (.committed reservation.commit) : WorkerTask Tx)} = 0 := rfl
          refine ⟨le_refl _, one (.releasing (.committed _)), ?_, ?_⟩
          · intro booked
            rcases live_moves moved with ⟨_, committed⟩ | ⟨destroyed, _⟩
            · rw [committed, booked, Multiset.map_cons, own]
            · exact absurd destroyed.symm destroyed_not_committed
          · have limiting : inReserve
              {(.releasing (.committed reservation.commit) : WorkerTask Tx)} =
                inReserve {.executing tx reservation} := rfl
            rw [executing, idle, limiting, ← Multiset.singleton_add tx round.succeeded]
            simp only [add_zero]
            abel
  | @failed _ tx reservation _ finished aborting moved =>
      obtain ⟨few, ends⟩ : Multiset.card reservation.destroyed ≤ 1 ∧
        ∀ next ∈ reservation.destroyed, Ending next := destroyed_ends
      obtain ⟨limiting, idle⟩ := released_idle Tx reservation.destroyed
      have executing : inExecution {WorkerTask.executing tx reservation} = {tx} := rfl
      have reserving : inReserve {WorkerTask.executing tx reservation} = 0 := rfl
      refine ⟨?_, released_carries ends, ?_, ?_⟩
      · have card := released_card Tx few
        exact Nat.add_le_add_right card _
      · intro booked
        rcases live_moves moved with ⟨destroyed, _⟩ | ⟨_, committed⟩
        · exact absurd destroyed destroyed_not_committed
        · rw [committed, booked]
      · rw [executing, reserving, limiting, idle, ← Multiset.singleton_add tx round.failed]
        simp only [add_zero]
        abel
  | @releases _ limitsTask _ limitsLeft moved =>
      cases carries with
      | releasing ending =>
          obtain ⟨committed, few, ends⟩ := ending_moves ending moved
          obtain ⟨limiting, idle⟩ := released_idle Tx limitsLeft
          refine ⟨?_, released_carries ends, fun booked => committed.trans booked, ?_⟩
          · have card := released_card Tx few
            exact Nat.add_le_add_right card _
          · rw [limiting, idle]
            rfl

theorem workers_kept_step (someTxs : 0 ≤ limits.maxTxs.toInt) (few : workers < 2 ^ 32)
    (kept : WorkersKept txs limits gasLimit workers pool)
    (step : Threads.Step (AssemblyMoves cryptoShorthash library store programs gasLimit) pool label
      next) : WorkersKept txs limits gasLimit workers next := by
  have callers : Multiset.card (limitsView pool).tasks ≤ 2 ^ 32 := by
    have fewer := limits_tasks_card pool.tasks
    have crowd := kept.crowd
    rw [limitsView, Multiset.card_cons]
    omega
  have limitsKept : LimitsKept limits (limitsView next) := by
    rcases assembly_step_limits step with same | ⟨task, accesses⟩
    · rw [same]
      exact kept.limits
    · exact limits_kept_step someTxs callers kept.limits accesses
  cases step with
  | @move round after _ left rest moved =>
      obtain ⟨own, others⟩ := Multiset.forall_mem_cons.mp kept.carries
      have access := assembly_moves_kept own moved
      have crowd := kept.crowd
      have less := access.crowd
      have accounted := kept.accounted
      simp only [Multiset.card_cons] at crowd
      rw [executedTxs, in_reserve_cons, in_execution_cons] at accounted
      refine ⟨?_, limitsKept, ?_, access.booked kept.booked, ?_⟩
      · simp only [Multiset.card_add]
        omega
      · intro other member
        rcases Multiset.mem_add.mp member with fresh | earlier
        · exact access.carries other fresh
        · exact others other earlier
      · rw [executedTxs, in_reserve_add, in_execution_add, accounted]
        calc (round.mempool : Multiset Tx) + round.dropped + (inReserve {label} + inReserve rest) +
              (round.succeeded + round.failed + (inExecution {label} + inExecution rest))
            = ((round.mempool : Multiset Tx) + round.dropped + inReserve {label} +
                (round.succeeded + round.failed + inExecution {label})) +
              (inReserve rest + inExecution rest) := by abel
          _ = ((after.mempool : Multiset Tx) + after.dropped + inReserve left +
                (after.succeeded + after.failed + inExecution left)) +
              (inReserve rest + inExecution rest) := by rw [access.accounted]
          _ = _ := by abel

omit [DecidableEq Tx] in
theorem workers_kept_start (someGas : 0 ≤ limits.overallGasLimit.toInt) :
    WorkersKept txs limits gasLimit workers
      (assemblyPool txs limits before workers : AssemblyPool Tx Database) := by
  have idle {Value : Type} (view : WorkerTask Tx → Option Value)
      (nothing : view .waiting = none) :
      (Multiset.replicate workers (.waiting : WorkerTask Tx)).filterMap view = 0 := by
    apply filter_map_none
    intro task member
    rw [Multiset.eq_of_mem_replicate member, nothing]
  constructor
  · rw [assemblyPool, Multiset.card_replicate]
    exact le_refl _
  · have same : limitsView (assemblyPool txs limits before workers : AssemblyPool Tx Database) =
        limitsPool limits := by
      rw [limitsView, limitsPool, assemblyPool, limitsTasks, idle _ rfl]
      rfl
    rw [same]
    exact limits_kept_start someGas
  · intro task member
    rw [Multiset.eq_of_mem_replicate member]
    exact .waiting
  · rfl
  · rw [executedTxs, assemblyPool, inReserve, inExecution, idle _ rfl, idle _ rfl]
    simp only [add_zero]

/-! ## The block of the workers -/

structure BlockFollows (cryptoShorthash : CryptoShorthash) (library : ContractLibrary)
    (store : StateStore Database) (programs : Tx → Program) (before : GlobalContext Database)
    (pool : AssemblyPool Tx Database) : Prop where
  run : ∃ moves, Run (MovesBlock cryptoShorthash library store programs) (.start before) moves
    pool.shared.block
  succeeded : ∀ tx ∈ pool.shared.succeeded,
    pool.shared.block.Finished tx ∧ pool.shared.block.books.phase tx = .committing
  failed : ∀ tx ∈ pool.shared.failed,
    pool.shared.block.Finished tx ∧ pool.shared.block.books.phase tx = .aborting
  untouched : ∀ tx, tx ∉ executedTxs pool →
    LeftAlone tx (.start before) pool.shared.block

theorem left_alone_again {tx : Tx} {first second third : BlockExecution Tx Database}
    (earlier : LeftAlone tx first second) (later : LeftAlone tx second third) :
    LeftAlone tx first third where
  context := later.context.trans earlier.context
  phase := later.phase.trans earlier.phase
  closures := later.closures.trans earlier.closures
  held := later.held.trans earlier.held

theorem block_follows_kept (kept : BlockFollows cryptoShorthash library store programs before pool)
    (block : next.shared.block = pool.shared.block)
    (succeeded : ∀ tx ∈ next.shared.succeeded, tx ∈ pool.shared.succeeded ∨
      (pool.shared.block.Finished tx ∧ pool.shared.block.books.phase tx = .committing))
    (failed : ∀ tx ∈ next.shared.failed, tx ∈ pool.shared.failed ∨
      (pool.shared.block.Finished tx ∧ pool.shared.block.books.phase tx = .aborting))
    (executed : ∀ tx ∈ executedTxs pool, tx ∈ executedTxs next) :
    BlockFollows cryptoShorthash library store programs before next := by
  constructor
  · rw [block]
    exact kept.run
  · intro tx member
    rw [block]
    exact (succeeded tx member).elim (kept.succeeded tx) id
  · intro tx member
    rw [block]
    exact (failed tx member).elim (kept.failed tx) id
  · intro tx stranger
    rw [block]
    exact kept.untouched tx fun inside => stranger (executed tx inside)

/-- A move of `execute` touches none of the transactions that have ended or not begun, so
what is known of them outlives the moves of the worker. -/
theorem executes_follows {tx : Tx} {reservation : Reservation} {move : BlockMove Tx}
    {block : BlockExecution Tx Database} {rest : Multiset (WorkerTask Tx)} (distinct : txs.Nodup)
    (workersKept : WorkersKept txs limits gasLimit workers
      ⟨round, .executing tx reservation ::ₘ rest⟩)
    (kept : BlockFollows cryptoShorthash library store programs before
      ⟨round, .executing tx reservation ::ₘ rest⟩)
    (own : OwnMove round.block tx move)
    (moves : MovesBlock cryptoShorthash library store programs round.block move block) :
    BlockFollows cryptoShorthash library store programs before
      ⟨{ round with block := block }, {.executing tx reservation} + rest⟩ := by
  obtain ⟨earlier, run⟩ := kept.run
  have others {other : Tx} (stranger : other ≠ tx) : LeftAlone other round.block block :=
    moves_left_alone moves own stranger
  have once : (executedTxs (⟨round, .executing tx reservation ::ₘ rest⟩ :
      AssemblyPool Tx Database)).Nodup := by
    have whole : (txs : Multiset Tx).Nodup := Multiset.coe_nodup.mpr distinct
    rw [workersKept.accounted] at whole
    exact (Multiset.nodup_add.mp whole).2.1
  have executing : tx ∈ inExecution (.executing tx reservation ::ₘ rest) := by
    rw [in_execution_cons]
    exact Multiset.mem_add.mpr (.inl (Multiset.mem_singleton_self tx))
  have apart : ∀ other ∈ round.succeeded + round.failed, other ≠ tx := by
    intro other ended same
    rw [executedTxs, Multiset.nodup_add] at once
    exact Multiset.disjoint_left.mp once.2.2 ended (same ▸ executing)
  constructor
  · exact ⟨_, run_snoc run moves⟩
  · intro other member
    have same := others (apart other (Multiset.mem_add.mpr (.inl member)))
    obtain ⟨finished, phase⟩ := kept.succeeded other member
    exact ⟨left_alone_finished same finished, same.phase.trans phase⟩
  · intro other member
    have same := others (apart other (Multiset.mem_add.mpr (.inr member)))
    obtain ⟨finished, phase⟩ := kept.failed other member
    exact ⟨left_alone_finished same finished, same.phase.trans phase⟩
  · intro other stranger
    rw [Multiset.singleton_add] at stranger
    have outside : other ≠ tx := by
      intro same
      exact stranger (Multiset.mem_add.mpr (.inr (same ▸ executing)))
    exact left_alone_again (kept.untouched other stranger) (others outside)

theorem block_follows_step (distinct : txs.Nodup)
    (workersKept : WorkersKept txs limits gasLimit workers pool)
    (kept : BlockFollows cryptoShorthash library store programs before pool)
    (step : Threads.Step (AssemblyMoves cryptoShorthash library store programs gasLimit) pool label
      next) : BlockFollows cryptoShorthash library store programs before next := by
  cases step with
  | @move round after _ left rest moved =>
      have still (succeeded : after.succeeded = round.succeeded)
          (failed : after.failed = round.failed)
          (executing : ∀ tx ∈ inExecution {label}, tx ∈ inExecution left) :
          ∀ tx ∈ executedTxs (⟨round, label ::ₘ rest⟩ : AssemblyPool Tx Database),
            tx ∈ executedTxs (⟨after, left + rest⟩ : AssemblyPool Tx Database) := by
        intro tx member
        simp only [executedTxs, in_execution_cons label rest, in_execution_add, succeeded, failed,
          Multiset.mem_add] at member ⊢
        rcases member with ended | own | other
        · exact .inl ended
        · exact .inr (.inl (executing tx own))
        · exact .inr (.inr other)
      have nobody : ∀ tx ∈ (0 : Multiset Tx), tx ∈ inExecution left :=
        fun tx member => absurd member (Multiset.notMem_zero tx)
      have quiet (block : after.block = round.block) (succeeded : after.succeeded = round.succeeded)
          (failed : after.failed = round.failed) (idle : inExecution {label} = 0) :
          BlockFollows cryptoShorthash library store programs before
            (⟨after, left + rest⟩ : AssemblyPool Tx Database) :=
        block_follows_kept kept block (fun tx member => .inl (succeeded ▸ member))
          (fun tx member => .inl (failed ▸ member))
          (still succeeded failed fun tx member => nobody tx (idle ▸ member))
      cases moved with
      | opened => exact quiet rfl rfl rfl rfl
      | shutDown => exact quiet rfl rfl rfl rfl
      | missed => exact quiet rfl rfl rfl rfl
      | took next fits => exact quiet rfl rfl rfl rfl
      | tooLarge next large => exact quiet rfl rfl rfl rfl
      | reserves moved => exact quiet rfl rfl rfl rfl
      | turnedAway moved => exact quiet rfl rfl rfl rfl
      | releases moved => exact quiet rfl rfl rfl rfl
      | executes own moves => exact executes_follows distinct workersKept kept own moves
      | @succeeded _ tx reservation _ finished committing moved =>
          refine block_follows_kept kept rfl ?_ (fun _ member => .inl member) ?_
          · intro other member
            rcases Multiset.mem_cons.mp member with rfl | earlier
            · exact .inr ⟨finished, committing⟩
            · exact .inl earlier
          · intro other member
            have executing : inExecution {WorkerTask.executing tx reservation} = {tx} := rfl
            simp only [executedTxs, in_execution_cons (.executing tx reservation) rest, executing,
              in_execution_add, Multiset.mem_add, Multiset.mem_cons,
              Multiset.mem_singleton] at member ⊢
            rcases member with (ended | ended) | same | elsewhere
            · exact .inl (.inl (.inr ended))
            · exact .inl (.inr ended)
            · exact .inl (.inl (.inl same))
            · exact .inr (.inr elsewhere)
      | @failed _ tx reservation _ finished aborting moved =>
          refine block_follows_kept kept rfl (fun _ member => .inl member) ?_ ?_
          · intro other member
            rcases Multiset.mem_cons.mp member with rfl | earlier
            · exact .inr ⟨finished, aborting⟩
            · exact .inl earlier
          · intro other member
            have executing : inExecution {WorkerTask.executing tx reservation} = {tx} := rfl
            simp only [executedTxs, in_execution_cons (.executing tx reservation) rest, executing,
              in_execution_add, Multiset.mem_add, Multiset.mem_cons,
              Multiset.mem_singleton] at member ⊢
            rcases member with (ended | ended) | same | elsewhere
            · exact .inl (.inl ended)
            · exact .inl (.inr (.inr ended))
            · exact .inl (.inr (.inl same))
            · exact .inr (.inr elsewhere)

/-! ## Every interleaving -/

section Assembled

variable {labels : List (WorkerTask Tx)}

theorem assembly_kept (distinct : txs.Nodup) (someTxs : 0 ≤ limits.maxTxs.toInt)
    (someGas : 0 ≤ limits.overallGasLimit.toInt) (few : workers < 2 ^ 32)
    (run : Run (Threads.Step (AssemblyMoves cryptoShorthash library store programs gasLimit))
      (assemblyPool txs limits before workers) labels pool) :
    WorkersKept txs limits gasLimit workers pool ∧
      BlockFollows cryptoShorthash library store programs before pool := by
  apply run_invariant (fun pool => WorkersKept txs limits gasLimit workers pool ∧
    BlockFollows cryptoShorthash library store programs before pool) _ _ run
  · intro pool label next ⟨workersKept, follows⟩ step
    exact ⟨workers_kept_step someTxs few workersKept step,
      block_follows_step distinct workersKept follows step⟩
  · refine ⟨workers_kept_start someGas, ⟨[], .nil _⟩, ?_, ?_, ?_⟩
    · exact fun tx member => absurd member (Multiset.notMem_zero tx)
    · exact fun tx member => absurd member (Multiset.notMem_zero tx)
    · exact fun tx _ => ⟨rfl, rfl, rfl, rfl⟩

theorem order_executed (view : ObjectStore cryptoShorthash store)
    (follows : BlockFollows cryptoShorthash library store programs before pool) :
    (pool.shared.block.books.order : Multiset Tx) ≤
      pool.shared.succeeded + inExecution pool.tasks := by
  obtain ⟨_, run⟩ := follows.run
  have balanced := (run_balanced view run).balanced
  apply (Multiset.le_iff_subset (Multiset.coe_nodup.mpr (run_order_nodup view run))).mpr
  intro tx listed
  have phase := (balanced.listed tx).mp (Multiset.mem_coe.mp listed)
  have executed : tx ∈ executedTxs pool := by
    by_contra stranger
    have untouched := (follows.untouched tx stranger).phase
    rw [phase] at untouched
    cases untouched
  rw [executedTxs, Multiset.mem_add, Multiset.mem_add] at executed
  rcases executed with (succeeded | failed) | executing
  · exact Multiset.mem_add.mpr (.inl succeeded)
  · have aborting := (follows.failed tx failed).2
    rw [phase] at aborting
    cases aborting
  · exact Multiset.mem_add.mpr (.inr executing)

/-- The block keeps to the count of transactions, and exceeds the gas by less than the
limit of one transaction. -/
structure WithinLimits (limits : AssemblyLimits) (gasLimit : Tx → UInt64)
    (pool : AssemblyPool Tx Database) : Prop where
  txs : (pool.shared.block.books.order.length : ℤ) ≤ limits.maxTxs.toInt
  gas : (totalGas ((pool.shared.block.books.order : Multiset Tx).map gasLimit) : ℤ) ≤
    limits.overallGasLimit.toInt + (gasLimitPerTx.toNat - 1)

/-- However the workers interleave, the block that they assemble keeps to the count of
transactions, and exceeds the gas by less than the limit of one transaction: the last
reservation is admitted as long as any gas is left. -/
theorem assembly_within_limits (view : ObjectStore cryptoShorthash store) (distinct : txs.Nodup)
    (someTxs : 0 ≤ limits.maxTxs.toInt) (someGas : 0 ≤ limits.overallGasLimit.toInt)
    (few : workers < 2 ^ 32)
    (run : Run (Threads.Step (AssemblyMoves cryptoShorthash library store programs gasLimit))
      (assemblyPool txs limits before workers) labels pool) :
    WithinLimits limits gasLimit pool := by
  obtain ⟨workersKept, follows⟩ := assembly_kept distinct someTxs someGas few run
  have executed := order_executed view follows
  obtain ⟨others, together⟩ := Multiset.le_iff_exists_add.mp executed
  obtain ⟨admittedTxs, admittedGas⟩ := in_execution_admitted workersKept.carries
  have count := workersKept.limits.count.within
  have nearly := workersKept.limits.nearly
  have callerTxs : (limitsView pool).load LimitsTask.admittedTxs =
      0 + ((limitsTasks pool.tasks).map LimitsTask.admittedTxs).sum := load_cons _ _ _ _
  have callerGas : (limitsView pool).load LimitsTask.admittedGas =
      0 + ((limitsTasks pool.tasks).map LimitsTask.admittedGas).sum := load_cons _ _ _ _
  have booked : (limitsView pool).shared.committed = pool.shared.succeeded.map gasLimit :=
    workersKept.booked
  rw [callerTxs, booked, Multiset.card_map, max_eq_left someTxs] at count
  rw [GasNearly, callerGas, booked] at nearly
  constructor
  · have cards := Multiset.card_le_card executed
    rw [Multiset.coe_card, Multiset.card_add] at cards
    omega
  · have gas := congrArg (fun txs => totalGas (txs.map gasLimit)) together
    simp only [Multiset.map_add, total_gas_add] at gas
    omega

structure Accounted (txs : List Tx) (workers : ℕ) (pool : AssemblyPool Tx Database) : Prop where
  once : (txs : Multiset Tx) = pool.shared.mempool + pool.shared.dropped +
    inReserve pool.tasks + (pool.shared.succeeded + pool.shared.failed + inExecution pool.tasks)
  listed : (pool.shared.block.books.order : Multiset Tx) ≤
    pool.shared.succeeded + inExecution pool.tasks
  dropped : Multiset.card pool.tasks + Multiset.card pool.shared.dropped ≤ workers
  rests : pool.Finished → pool.shared.block.Quiescent ∧
    (pool.shared.block.books.order : Multiset Tx) = pool.shared.succeeded ∧
    (txs : Multiset Tx) = pool.shared.mempool + pool.shared.dropped +
      (pool.shared.succeeded + pool.shared.failed)

theorem assembly_rests (follows : BlockFollows cryptoShorthash library store programs before pool)
    (finished : pool.Finished) : pool.shared.block.Quiescent := by
  have ended (tx : Tx) : pool.shared.block.heldBy tx = 0 ∧ pool.shared.block.closures tx = [] := by
    by_cases executed : tx ∈ executedTxs pool
    · rw [executedTxs, finished, Multiset.mem_add, Multiset.mem_add] at executed
      have done : pool.shared.block.Finished tx := by
        rcases executed with (succeeded | failed) | executing
        · exact (follows.succeeded tx succeeded).1
        · exact (follows.failed tx failed).1
        · exact absurd executing (Multiset.notMem_zero tx)
      exact ⟨not_held_iff.mpr done.held, done.closures⟩
    · have untouched := follows.untouched tx executed
      exact ⟨untouched.held, untouched.closures⟩
  constructor
  · apply List.eq_nil_iff_forall_not_mem.mpr
    intro ticket member
    exact not_held_iff.mp (ended ticket.1).1 ticket member rfl
  · exact fun tx => (ended tx).2

/-- However the workers interleave, every transaction that leaves the mempool is in the block,
has failed, or has been turned away, each once and the last once for each worker; and the
block of workers that have stopped is at rest. -/
theorem assembly_accounts (view : ObjectStore cryptoShorthash store) (distinct : txs.Nodup)
    (someTxs : 0 ≤ limits.maxTxs.toInt) (someGas : 0 ≤ limits.overallGasLimit.toInt)
    (few : workers < 2 ^ 32)
    (run : Run (Threads.Step (AssemblyMoves cryptoShorthash library store programs gasLimit))
      (assemblyPool txs limits before workers) labels pool) :
    Accounted txs workers pool := by
  obtain ⟨workersKept, follows⟩ := assembly_kept distinct someTxs someGas few run
  have listed := order_executed view follows
  refine ⟨workersKept.accounted, listed, workersKept.crowd, fun finished => ?_⟩
  have nobody : inReserve pool.tasks = 0 ∧ inExecution pool.tasks = 0 := by
    rw [show pool.tasks = 0 from finished]
    exact ⟨rfl, rfl⟩
  have accounted := workersKept.accounted
  rw [executedTxs, nobody.1, nobody.2, add_zero, add_zero] at accounted
  rw [nobody.2, add_zero] at listed
  obtain ⟨_, moved⟩ := follows.run
  have balanced := (run_balanced view moved).balanced
  have once : (pool.shared.succeeded).Nodup := by
    have whole : (txs : Multiset Tx).Nodup := Multiset.coe_nodup.mpr distinct
    rw [accounted] at whole
    exact (Multiset.nodup_add.mp (Multiset.nodup_add.mp whole).2.1).1
  refine ⟨assembly_rests follows finished, le_antisymm listed ?_, accounted⟩
  apply (Multiset.le_iff_subset once).mpr
  intro tx succeeded
  exact Multiset.mem_coe.mpr ((balanced.listed tx).mpr (follows.succeeded tx succeeded).2)

end Assembled

end Workers

/-! ## Two transactions and two workers -/

section Alone

variable [DecidableEq Tx] {cryptoShorthash : CryptoShorthash} {library : ContractLibrary}
  {store : StateStore Database} {programs : Tx → Program} {gasLimit : Tx → UInt64}
  {round after : AssemblyRound Tx Database} {task next : WorkerTask Tx}

theorem lone_step {left : Multiset (WorkerTask Tx)}
    (moved : AssemblyMoves cryptoShorthash library store programs gasLimit round task after left) :
    Threads.Step (AssemblyMoves cryptoShorthash library store programs gasLimit) ⟨round, {task}⟩
      task ⟨after, left⟩ := by
  have stepped := Threads.Step.move 0 moved
  rw [add_zero] at stepped
  exact stepped

theorem ends_alone (reservation : Reservation) :
    Threads.Step (AssemblyMoves cryptoShorthash library store programs gasLimit)
      ⟨round, {.releasing (.committed reservation.commit)}⟩
      (.releasing (.committed reservation.commit)) ⟨round, {.waiting}⟩ := by
  have free : reservation.commit.destroyed = 0 := destroyed_committed rfl
  have ends : LimitsMoves round.limits (.committed reservation.commit) round.limits
      reservation.commit.destroyed := .ends
  rw [free] at ends
  exact lone_step (.releases ends)

theorem owner_moves_own {block last : BlockExecution Tx Database} {move : BlockMove Tx} {tx : Tx}
    (moves : MovesBlock cryptoShorthash library store programs block move last)
    (owns : move.owner? block = some tx) : OwnMove block tx move := by
  by_cases gives : ∃ other, move = .giveUp other
  · obtain ⟨other, rfl⟩ := gives
    exact .inr (.inl (congrArg BlockMove.giveUp (Option.some.inj owns)))
  · rcases moves_due moves fun other same => gives ⟨other, same⟩ with ⟨other, due⟩ | persists
    · have same := Option.some.inj ((own_owner (.inl due)).symm.trans owns)
      exact .inl (same ▸ due)
    · exact .inr (.inr persists)

/-- A move of `execute` for this transaction, and no other. -/
def performOwn (cryptoShorthash : CryptoShorthash) (library : ContractLibrary)
    (store : StateStore Database) (programs : Tx → Program) (tx : Tx)
    (block : BlockExecution Tx Database) (move : BlockMove Tx) :
    Option (BlockExecution Tx Database) :=
  if move.owner? block = some tx then block.perform cryptoShorthash library store programs move
  else none

theorem perform_own_owns {block last : BlockExecution Tx Database} {move : BlockMove Tx} {tx : Tx}
    (performed : performOwn cryptoShorthash library store programs tx block move = some last) :
    OwnMove block tx move := by
  unfold performOwn at performed
  split_ifs at performed with owns
  exact owner_moves_own performed owns

theorem perform_own_moves {block last : BlockExecution Tx Database} {move : BlockMove Tx} {tx : Tx}
    (performed : performOwn cryptoShorthash library store programs tx block move = some last) :
    MovesBlock cryptoShorthash library store programs block move last := by
  unfold performOwn at performed
  split_ifs at performed
  exact performed

theorem own_fold_moves {block last : BlockExecution Tx Database} {moves : List (BlockMove Tx)}
    {tx : Tx} (performed : moves.foldlM (performOwn cryptoShorthash library store programs tx)
      block = some last) :
    Run (MovesBlock cryptoShorthash library store programs) block moves last :=
  run_mono (fun _ _ _ => perform_own_moves) (run_of_fold performed)

variable (round) in
theorem executes_alone {tx : Tx} {reservation : Reservation}
    {block last : BlockExecution Tx Database} {moves : List (BlockMove Tx)}
    (performed : moves.foldlM (performOwn cryptoShorthash library store programs tx) block =
      some last) :
    Run (Threads.Step (AssemblyMoves cryptoShorthash library store programs gasLimit))
      ⟨{ round with block := block }, {.executing tx reservation}⟩
      (moves.map fun _ => .executing tx reservation)
      ⟨{ round with block := last }, {.executing tx reservation}⟩ := by
  have run := run_of_fold performed
  clear performed
  induction run with
  | nil state => exact .nil _
  | cons first rest induction =>
      exact .cons (lone_step (.executes (perform_own_owns first) (perform_own_moves first)))
        induction

end Alone

def bothAdd : Bool → Program := fun _ => readThenAdd true

def roomForOne : AssemblyLimits where
  maxTxs := 1
  overallGasLimit := 10

abbrev AssemblyStep :=
  Threads.Step (AssemblyMoves (fun _ => 0) noContracts (StateDB.store (fun _ => 0) fun _ _ => 0)
    bothAdd fun _ => 10)

/-- The limits and the block, and what is left of the two transactions. -/
def sharedRound (mempool : List Bool) (limits : AssemblyLimits)
    (block : BlockExecution Bool StateDB) (dropped : Multiset Bool) :
    AssemblyRound Bool StateDB where
  mempool := mempool
  limits := { limits := limits, committed := 0, unreturned := 0 }
  block := block
  dropped := dropped
  failed := 0
  succeeded := 0

def firstTxMoves : List (BlockMove Bool) :=
  [.call false, .call false, .call false, .push false .first, .pass false, .commit 0]

/-- The second worker finds the limits taken, while the first one executes. -/
theorem two_txs_assembled : ∃ labels pool,
    Run AssemblyStep (assemblyPool [false, true] roomForOne emptyState 2) labels pool ∧
    pool.Finished ∧ pool.shared.block.books.order = [false] ∧ pool.shared.dropped = {true} := by
  have ran : (firstTxMoves.foldlM (performOwn (fun _ => 0) noContracts
      (StateDB.store (fun _ => 0) fun _ _ => 0) bothAdd false) (.start emptyState)).map
        (fun block => (block.books.order, block.books.held.length, block.closures false)) =
          some ([false], 0, []) := by
    decide +kernel
  obtain ⟨block, performed, facts⟩ := Option.map_eq_some_iff.mp ran
  simp only [Prod.mk.injEq] at facts
  obtain ⟨order, held, closures⟩ := facts
  have moved := own_fold_moves performed
  have view := (StateDB.settlingStore (fun _ => 0) fun _ _ => 0).toObjectStore
  have phase : block.books.phase false = .committing := by
    apply ((run_balanced view moved).balanced.listed false).mp
    rw [order]
    exact List.mem_singleton_self false
  have finished : block.Finished false := by
    refine ⟨.inl phase, fun ticket member => ?_, closures⟩
    rw [List.length_eq_zero_iff.mp held] at member
    cases member
  obtain ⟨start, begins⟩ : ∃ start, start = BlockExecution.start emptyState := ⟨_, rfl⟩
  rw [← begins] at performed
  let counted := roomForOne.takeTx
  let overdrawn := counted.takeTx
  have open_count : 0 < roomForOne.maxTxs := by decide
  have spent : roomForOne.takeTx.maxTxs ≤ 0 := by decide
  have open_gas : 0 < roomForOne.takeTx.takeTx.overallGasLimit := by decide
  have firstTakes : Run AssemblyStep ⟨sharedRound [false, true] roomForOne start 0, {.waiting}⟩ _
      ⟨sharedRound [true] counted start 0, {.limiting false (.reservingGas 10)}⟩ :=
    .cons (lone_step .opened) (.cons (lone_step (.took rfl (by decide)))
      (.cons (lone_step (.reserves (.tookTx open_count))) (.nil _)))
  have secondTakes : Run AssemblyStep ⟨sharedRound [true] counted start 0, {.waiting}⟩ _
      ⟨sharedRound [] overdrawn start 0, {.limiting true .refusingTx}⟩ :=
    .cons (lone_step .opened) (.cons (lone_step (.took rfl (by decide)))
      (.cons (lone_step (.reserves (.overtookTx spent))) (.nil _)))
  have firstReserves : Run AssemblyStep
      ⟨sharedRound [] overdrawn start 0, {.limiting false (.reservingGas 10)}⟩ _
      ⟨sharedRound [] (overdrawn.takeGas 10) start 0, {.executing false { gas := 10 }}⟩ :=
    .cons (lone_step (.reserves (.tookGas open_gas))) (.nil _)
  have firstExecutes : Run AssemblyStep
      ⟨sharedRound [] (overdrawn.takeGas 10) start 0, {.executing false { gas := 10 }}⟩ _
      ⟨sharedRound [] (overdrawn.takeGas 10) block 0, {.executing false { gas := 10 }}⟩ :=
    executes_alone (sharedRound [] (overdrawn.takeGas 10) start 0) performed
  have secondStops : Run AssemblyStep
      ⟨sharedRound [] (overdrawn.takeGas 10) block 0, {.limiting true .refusingTx}⟩ _
      ⟨sharedRound [] (overdrawn.takeGas 10).returnTx block {true}, 0⟩ :=
    .cons (lone_step (.turnedAway .returnedTx)) (.nil _)
  have firstSucceeds : AssemblyStep
      ⟨sharedRound [] (overdrawn.takeGas 10).returnTx block {true},
        {.executing false { gas := 10 }}⟩ _ _ :=
    lone_step (.succeeded finished phase .commits)
  have firstStops := Run.cons firstSucceeds
    (.cons (ends_alone _) (.cons (lone_step .shutDown) (.nil _)))
  have opened := run_frame firstTakes {.waiting}
  have refused := run_frame secondTakes {.limiting false (.reservingGas 10)}
  have executed := run_frame (run_append firstReserves firstExecutes) {.limiting true .refusingTx}
  have stopped := run_frame secondStops {.executing false { gas := 10 }}
  have swapped (one other : WorkerTask Bool) :
      ({one} + {other} : Multiset (WorkerTask Bool)) = {other} + {one} := add_comm _ _
  rw [swapped, swapped (.limiting true _)] at refused
  rw [swapped (.executing false _)] at executed
  rw [zero_add] at stopped
  have run := run_append opened (run_append refused (run_append executed
    (run_append stopped firstStops)))
  have pool : assemblyPool [false, true] roomForOne emptyState 2 =
      ⟨sharedRound [false, true] roomForOne start 0, {.waiting} + {.waiting}⟩ := by
    rw [begins]
    rfl
  rw [pool]
  exact ⟨_, _, run, rfl, order, rfl⟩

theorem assembly_within_limits_contended : ∃ pool : AssemblyPool Bool StateDB,
    pool.shared.block.books.order = [false] ∧ pool.shared.dropped = {true} ∧
      WithinLimits roomForOne (fun _ => 10) pool := by
  obtain ⟨_, pool, run, _, order, dropped⟩ := two_txs_assembled
  exact ⟨pool, order, dropped, assembly_within_limits
    (StateDB.settlingStore (fun _ => 0) fun _ _ => 0).toObjectStore (by decide) (by decide)
    (by decide) (by decide) run⟩

theorem assembly_accounts_contended : ∃ pool : AssemblyPool Bool StateDB,
    pool.Finished ∧ pool.shared.block.books.order = [false] ∧ pool.shared.dropped = {true} ∧
      Accounted [false, true] 2 pool := by
  obtain ⟨_, pool, run, finished, order, dropped⟩ := two_txs_assembled
  exact ⟨pool, finished, order, dropped, assembly_accounts
    (StateDB.settlingStore (fun _ => 0) fun _ _ => 0).toObjectStore (by decide) (by decide)
    (by decide) (by decide) run⟩

end Scs
