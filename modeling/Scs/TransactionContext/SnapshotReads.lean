import Scs.StateDb.SteadyStore
import Scs.TransactionContext.BlockExecution

/-!
# Transactions read the snapshot of the block start

Nothing that a transaction reads changes within a block: every context is its
own program run on the committed values and the committed contracts.
-/

namespace Scs

set_option autoImplicit false

open Runs TwoPhase

section Frozen

variable {cryptoShorthash : CryptoShorthash} {library : ContractLibrary} {Tx : Type*}
  {Database : Type} [DecidableEq Tx] {store : StateStore Database} {programs : Tx → Program}
  {block next : BlockExecution Tx Database} {move : BlockMove Tx}

/-- The committed values, and the contract database without what is pending. -/
def BlockExecution.snapshot (store : StateStore Database) (block : BlockExecution Tx Database) :
    CommittedValues × ContractDB :=
  (block.committedValues store, block.globalContext.contractDb.snapshot)

def BlockMove.isCallOf (tx : Tx) : BlockMove Tx → Bool
  | .call caller => caller = tx
  | _ => false

theorem closure_run_snapshot {thread : Fin tlcacheSize} {closure : ContractClosure}
    {contractDb after : ContractDB} (run : closure.run thread contractDb = .ok after) :
    after.snapshot = contractDb.snapshot := by
  cases closure with
  | deploy deployAddress contractHash =>
      cases run
      rfl
  | create h contract unmeteredContract =>
      obtain ⟨contracts, _, same⟩ := Lockstep.bind_ok_iff.mp run
      cases same
      rfl

theorem snapshot_frozen (steady : SteadyStore store) (block : BlockExecution Tx Database)
    (move : BlockMove Tx) (next : BlockExecution Tx Database)
    (moves : MovesBlock cryptoShorthash library store programs block move next) :
    next.snapshot store = block.snapshot store := by
  cases block_move_cases moves with
  | accepted status phase applied => exact Prod.ext (funext (steady.push applied)) rfl
  | rejected status phase applied => exact Prod.ext (funext (steady.push applied)) rfl
  | committed found phase through =>
      exact Prod.ext (funext (steady.through (fun _ _ => commit_footing) through)) rfl
  | destroyed found phase through =>
      exact Prod.ext (funext (steady.through (fun _ _ => destroy_footing) through)) rfl
  | closed closures run => exact Prod.ext rfl (closure_run_snapshot run)
  | _ => rfl

theorem call_advances {tx : Tx}
    (moves : MovesBlock cryptoShorthash library store programs block move next)
    (own : move.isCallOf tx = true) :
    next.contexts tx = (block.contexts tx).advance library (block.snapshot store).1
      (block.snapshot store).2 (programs tx) := by
  have calls : move = .call tx := by
    cases move <;> simp only [BlockMove.isCallOf, Bool.false_eq_true, decide_eq_true_eq] at own
    rw [own]
  subst calls
  cases block_move_cases moves with
  | went running status => exact Function.update_self _ _ _
  | returned running status => exact Function.update_self _ _ _
  | threw running status => exact Function.update_self _ _ _

theorem other_context_kept {tx : Tx}
    (moves : MovesBlock cryptoShorthash library store programs block move next)
    (other : move.isCallOf tx = false) : next.contexts tx = block.contexts tx := by
  have apart : ∀ caller, move = .call caller → tx ≠ caller := by
    rintro caller rfl same
    simp [BlockMove.isCallOf, same] at other
  cases block_move_cases moves with
  | went running status => exact Function.update_of_ne (apart _ rfl) _ _
  | returned running status => exact Function.update_of_ne (apart _ rfl) _ _
  | threw running status => exact Function.update_of_ne (apart _ rfl) _ _
  | _ => rfl

end Frozen

/-! ## A program on its own -/

section Alone

variable (library : ContractLibrary) (committed : CommittedValues) (contractDb : ContractDB)
  (program : Program) (context : TransactionContext)

theorem advance_results :
    context.results <+: (context.advance library committed contractDb program).results := by
  unfold TransactionContext.advance
  split
  · split
    · exact List.prefix_refl _
    · exact List.prefix_refl _
    · split
      · exact List.prefix_append _ _
      · exact List.prefix_refl _
  · exact List.prefix_refl _

variable {context}

theorem advance_stopped (stopped : context.status ≠ .running) :
    context.advance library committed contractDb program = context := by
  unfold TransactionContext.advance
  split
  · rename_i running
    exact absurd running stopped
  · rfl

variable (context) {library committed contractDb program}

theorem advances_results {first second : Nat} (earlier : first ≤ second) :
    ((TransactionContext.advance library committed contractDb program)^[first] context).results <+:
      ((TransactionContext.advance library committed contractDb program)^[second]
        context).results := by
  induction earlier with
  | refl => exact List.prefix_refl _
  | @step later _ induction =>
      rw [Function.iterate_succ_apply']
      exact induction.trans (advance_results _ _ _ _ _)

theorem advances_stopped {first second : Nat} (earlier : first ≤ second)
    (stopped : ((TransactionContext.advance library committed contractDb program)^[first]
      context).status ≠ .running) :
    (TransactionContext.advance library committed contractDb program)^[second] context =
      (TransactionContext.advance library committed contractDb program)^[first] context := by
  induction earlier with
  | refl => rfl
  | @step later _ induction =>
      rw [Function.iterate_succ_apply', induction]
      exact advance_stopped _ _ _ _ stopped

end Alone

/-! ## Two runs of a block -/

/-- What two states of a block show of a transaction: one has the results of the
other, and when the transaction has stopped in both its proxies are the same, and
with them all that it pushes. -/
structure SameReads {Tx : Type*} {Database : Type} (tx : Tx)
    (left right : BlockExecution Tx Database) : Prop where
  results : (left.contexts tx).results <+: (right.contexts tx).results ∨
    (right.contexts tx).results <+: (left.contexts tx).results
  stopped : (left.contexts tx).status ≠ .running → (right.contexts tx).status ≠ .running →
    left.contexts tx = right.contexts tx

section Runs

variable {cryptoShorthash : CryptoShorthash} {library : ContractLibrary} {Tx : Type*}
  {Database : Type} [DecidableEq Tx] {store : StateStore Database} {programs : Tx → Program}

theorem context_iterates (steady : SteadyStore store) {globalContext : GlobalContext Database}
    {moves : List (BlockMove Tx)} {block : BlockExecution Tx Database}
    (run : Run (MovesBlock cryptoShorthash library store programs) (.start globalContext) moves
      block) (tx : Tx) :
    block.contexts tx =
      (TransactionContext.advance library (fun key => store.getCommittedValue key
        globalContext.stateDb) globalContext.contractDb.snapshot (programs tx))^[moves.countP
          (BlockMove.isCallOf tx)] .start :=
  view_iterates (fun block : BlockExecution Tx Database => block.contexts tx)
    (BlockExecution.snapshot store)
    (fun snapshot context => context.advance library snapshot.1 snapshot.2 (programs tx))
    (BlockMove.isCallOf tx) (snapshot_frozen steady) (fun _ _ _ => call_advances)
    (fun _ _ _ => other_context_kept) run

theorem run_committed_values (steady : SteadyStore store) {globalContext : GlobalContext Database}
    {moves : List (BlockMove Tx)} {block : BlockExecution Tx Database}
    (run : Run (MovesBlock cryptoShorthash library store programs) (.start globalContext) moves
      block) :
    block.committedValues store =
      fun key => store.getCommittedValue key globalContext.stateDb := by
  have frozen : block.snapshot store =
      (.start globalContext : BlockExecution Tx Database).snapshot store := by
    apply run_invariant (fun block : BlockExecution Tx Database => block.snapshot store = _) _ _ run
    · intro block move next same moves
      exact (snapshot_frozen steady block move next moves).trans same
    · rfl
  exact congrArg Prod.fst frozen

/-- What every call of a program on the snapshot keeps holds of its context after
any run. -/
theorem context_invariant (steady : SteadyStore store) {globalContext : GlobalContext Database}
    {moves : List (BlockMove Tx)} {block : BlockExecution Tx Database}
    (run : Run (MovesBlock cryptoShorthash library store programs) (.start globalContext) moves
      block) (tx : Tx) (invariant : TransactionContext → Prop) (initial : invariant .start)
    (kept : ∀ context, invariant context → invariant (context.advance library
      (fun key => store.getCommittedValue key globalContext.stateDb)
      globalContext.contractDb.snapshot (programs tx))) : invariant (block.contexts tx) := by
  rw [context_iterates steady run tx]
  generalize moves.countP (BlockMove.isCallOf tx) = calls
  induction calls with
  | zero => exact initial
  | succ calls induction =>
      rw [Function.iterate_succ_apply']
      exact kept _ induction

theorem run_same_reads (steady : SteadyStore store) {globalContext : GlobalContext Database}
    {tx : Tx} {others : Tx → Program} (same : programs tx = others tx)
    {moves otherMoves : List (BlockMove Tx)} {block other : BlockExecution Tx Database}
    (run : Run (MovesBlock cryptoShorthash library store programs) (.start globalContext) moves
      block)
    (otherRun : Run (MovesBlock cryptoShorthash library store others) (.start globalContext)
      otherMoves other) : SameReads tx block other := by
  have own := context_iterates steady run tx
  have elsewhere := context_iterates steady otherRun tx
  rw [← same] at elsewhere
  rcases Nat.le_total (moves.countP (BlockMove.isCallOf tx))
      (otherMoves.countP (BlockMove.isCallOf tx)) with fewer | more
  · constructor
    · rw [own, elsewhere]
      exact .inl (advances_results _ fewer)
    · intro stopped _
      rw [own] at stopped ⊢
      rw [elsewhere]
      exact (advances_stopped _ fewer stopped).symm
  · constructor
    · rw [own, elsewhere]
      exact .inr (advances_results _ more)
    · intro _ stopped
      rw [elsewhere] at stopped ⊢
      rw [own]
      exact advances_stopped _ more stopped

end Runs

/-- A transaction reads the same in every two runs of a block, whatever else runs
in them. -/
theorem snapshot_reads (cryptoShorthash : CryptoShorthash) (keyedShorthash : KeyedShorthash)
    (library : ContractLibrary) {Tx : Type*} [DecidableEq Tx]
    (globalContext : GlobalContext StateDB) (tx : Tx) (programs others : Tx → Program)
    (same : programs tx = others tx) {moves otherMoves : List (BlockMove Tx)}
    {block other : BlockExecution Tx StateDB}
    (run : Run (MovesBlock cryptoShorthash library (StateDB.store cryptoShorthash keyedShorthash)
      programs) (.start globalContext) moves block)
    (otherRun : Run (MovesBlock cryptoShorthash library
      (StateDB.store cryptoShorthash keyedShorthash) others) (.start globalContext) otherMoves
      other) : SameReads tx block other :=
  run_same_reads state_db_steady same run otherRun

def readThenAdd : Bool → Program := fun _ results =>
  match results with
  | [] => .call (.get 7)
  | [_] => .call (.nonnegativeInt64Add 7 5)
  | _ => .returns

def noContracts : ContractLibrary where
  addMetering _ := none
  hashXdr _ := 0
  hashVec _ := 0

/-- The second transaction commits between the calls of the first. -/
def interleavedMoves : List (BlockMove Bool) :=
  [.call true, .call false, .call false, .call false, .push false .first, .pass false, .commit 0,
    .call true, .call true]

def readThenAddRun (moves : List (BlockMove Bool)) : Option (BlockExecution Bool StateDB) :=
  BlockExecution.performAll (fun _ => 0) noContracts (StateDB.store (fun _ => 0) fun _ _ => 0)
    readThenAdd moves (.start ⟨.ofCommitted 0 fun _ => none, .empty⟩)

theorem snapshot_reads_interleaved :
    ∃ block other, readThenAddRun interleavedMoves = some block ∧
      readThenAddRun [.call true, .call true, .call true] = some other ∧
      (block.contexts true).status = .returned ∧ (other.contexts true).status = .returned ∧
      SameReads true block other := by
  have first : (readThenAddRun interleavedMoves).map
      (fun block => (block.contexts true).status) = some .returned := by
    decide +kernel
  have second : (readThenAddRun [.call true, .call true, .call true]).map
      (fun block => (block.contexts true).status) = some .returned := by
    decide +kernel
  obtain ⟨block, ran, stopped⟩ := Option.map_eq_some_iff.mp first
  obtain ⟨other, alone, ended⟩ := Option.map_eq_some_iff.mp second
  exact ⟨block, other, ran, alone, stopped, ended,
    snapshot_reads _ _ _ _ true readThenAdd readThenAdd rfl (run_of_perform_all ran)
      (run_of_perform_all alone)⟩

end Scs
