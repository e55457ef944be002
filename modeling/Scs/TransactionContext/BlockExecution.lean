import Scs.Library.Runs
import Scs.Library.TwoPhase
import Scs.StateDb.StateStore
import Scs.TransactionContext.TransactionContext

/-!
# The transactions of a block, interleaved (`transaction_context/execution_context.cc`)

Every transaction runs its contracts on its proxies, pushes its deltas, passes
the threshold or gives up, and then commits or destroys what it holds. The moves
of all transactions interleave in any order on one state database and one
contract database, and with the thread that saves contracts. Each call is made on
some thread, which counts the hash indices that it allocates in the block.
-/

namespace Scs

set_option autoImplicit false

open Lockstep Runs TwoPhase

structure GlobalContext (Database : Type) where
  stateDb : Database
  contractDb : ContractDB

/-- What the closures of a committed transaction do on the contract database. -/
inductive ContractClosure where
  | deploy (deployAddress : Address) (contractHash : Hash)
  | create (h : Hash) (contract : MeteredContract) (unmeteredContract : Contract)
  deriving DecidableEq, Repr

/-- The pushed keys are a record: every key that `try_apply_delta` was called for. The
allocator of every thread is reset between blocks. -/
structure BlockExecution (Tx : Type*) (Database : Type) where
  globalContext : GlobalContext Database
  allocated : Fin tlcacheSize → ℕ
  modifiedKeys : List AddressAndKey
  pushedKeys : List AddressAndKey
  contexts : Tx → TransactionContext
  books : Books Tx (AddressAndKey × DeltaRewind) (AddressAndKey × StorageDelta)
  closures : Tx → List ContractClosure

/-- The moves of `execute` and of the destructors that run after it. A rewind is
named by its position in the books. -/
inductive BlockMove (Tx : Type*) where
  | call (tx : Tx)
  | push (tx : Tx) (ids : CallIds)
  | giveUp (tx : Tx)
  | pass (tx : Tx)
  | commit (position : Nat)
  | close (tx : Tx) (thread : Fin tlcacheSize)
  | destroy (position : Nat) (newId : UniqueId)
  | persist

/-- The deploy closures commit with the rewinds; the create closures wait for
their destructors. -/
def contractClosures (deploys : List (Address × Hash))
    (creates : List (Hash × MeteredContract × Contract)) : List ContractClosure :=
  deploys.map (fun entry => .deploy entry.1 entry.2) ++
    creates.map fun entry => .create entry.1 entry.2.1 entry.2.2

def ContractClosure.run (thread : Fin tlcacheSize) (contractDb : ContractDB) :
    ContractClosure → Except Fault ContractDB
  | .deploy deployAddress contractHash =>
      .ok (contractDb.deployContractToAddress deployAddress contractHash)
  | .create h contract unmeteredContract =>
      contractDb.addNewUncommittedContract thread h contract unmeteredContract

namespace BlockExecution

variable {Tx : Type*} {Database : Type} [DecidableEq Tx]

def start (globalContext : GlobalContext Database) : BlockExecution Tx Database where
  globalContext := globalContext
  allocated _ := 0
  modifiedKeys := []
  pushedKeys := []
  contexts _ := .start
  books := .start fun _ => []
  closures _ := []

def held (block : BlockExecution Tx Database) : Rewinds := block.books.held.map Prod.snd

def withStateDb (stateDb : Database) (block : BlockExecution Tx Database) :
    BlockExecution Tx Database :=
  { block with globalContext := { block.globalContext with stateDb := stateDb } }

def issued (ids : CallIds) (block : BlockExecution Tx Database) : CallIds :=
  ids.holding (block.allocated ids.thread)

variable (cryptoShorthash : CryptoShorthash) (library : ContractLibrary)
  (store : StateStore Database) (programs : Tx → Program)

/-- After `try_apply_delta` on a key, whatever it answers. -/
def withPush (ids : CallIds) (key : AddressAndKey) (delta : StorageDelta) (stateDb : Database)
    (block : BlockExecution Tx Database) : BlockExecution Tx Database :=
  { block.withStateDb stateDb with
    pushedKeys := key :: block.pushedKeys
    allocated :=
      if store.takesIndex ids key delta block.globalContext.stateDb then
        Function.update block.allocated ids.thread (block.allocated ids.thread + 1)
      else block.allocated }

def committedValues (block : BlockExecution Tx Database) : CommittedValues := fun key =>
  store.getCommittedValue key block.globalContext.stateDb

def advanced (tx : Tx) (block : BlockExecution Tx Database) : TransactionContext :=
  (block.contexts tx).advance library (block.committedValues store)
    block.globalContext.contractDb (programs tx)

/-- One move; `none` when it does not return or is not the turn of its owner.
Anything but a `HostError` aborts the process. -/
def perform (block : BlockExecution Tx Database) :
    BlockMove Tx → Option (BlockExecution Tx Database)
  | .call tx =>
      let context := block.advanced library store programs tx
      let contexts := Function.update block.contexts tx context
      match (block.contexts tx).status, context.status with
      | .running, .running => some { block with contexts := contexts }
      | .running, .returned =>
          some
            { block with
              contexts := contexts
              books := block.books.begin tx context.storageProxy.deltas }
      | .running, .threw (.hostError _) =>
          some { block with contexts := contexts, books := block.books.refuse tx }
      | _, _ => none
  | .push tx ids =>
      match (block.contexts tx).status, block.books.phase tx with
      | .returned, .pushing ((key, delta) :: rest) =>
          match store.tryApplyDelta (block.issued ids) key delta block.globalContext.stateDb with
          | .ok (some rewind, after) =>
              some
                { block.withPush store ids key delta after with
                  books := block.books.accept tx (key, rewind) rest }
          | .ok (none, after) =>
              some
                { block.withPush store ids key delta after with books := block.books.refuse tx }
          | .error _ => none
      | _, _ => none
  | .giveUp tx =>
      match (block.contexts tx).status, block.books.phase tx with
      | .returned, .pushing _ => some { block with books := block.books.refuse tx }
      | _, _ => none
  | .pass tx =>
      match (block.contexts tx).status, block.books.phase tx with
      | .returned, .pushing [] =>
          match (block.contexts tx).contractDbProxy.pushUpdatesToDb with
          | .ok (deploys, creates, _) =>
              some
                { block with
                  modifiedKeys :=
                    block.modifiedKeys ∪ (block.contexts tx).storageProxy.loggedKeys
                  books := block.books.decide tx
                  closures := Function.update block.closures tx (contractClosures deploys creates) }
          | .error _ => none
      | _, _ => none
  | .commit position =>
      match block.books.held[position]? with
      | some (tx, key, rewind) =>
          match block.books.phase tx with
          | .committing =>
              match store.throughRewind key rewind.commit block.globalContext.stateDb with
              | .ok after =>
                  some
                    { block.withStateDb after with
                      books := block.books.commitAt position (key, rewind.delta) }
              | .error _ => none
          | _ => none
      | none => none
  | .close tx thread =>
      match block.closures tx with
      | closure :: rest =>
          match closure.run thread block.globalContext.contractDb with
          | .ok contractDb =>
              some
                { block with
                  globalContext := { block.globalContext with contractDb := contractDb }
                  closures := Function.update block.closures tx rest }
          | .error _ => none
      | [] => none
  | .destroy position newId =>
      match block.books.held[position]? with
      | some (tx, key, rewind) =>
          match block.books.phase tx with
          | .aborting =>
              match store.throughRewind key (rewind.destroy cryptoShorthash newId)
                  block.globalContext.stateDb with
              | .ok after =>
                  some
                    { block.withStateDb after with books := block.books.destroyAt position }
              | .error _ => none
          | _ => none
      | none => none
  | .persist =>
      let contractDb := block.globalContext.contractDb.persist
      some { block with globalContext := { block.globalContext with contractDb := contractDb } }

def performAll (moves : List (BlockMove Tx)) (block : BlockExecution Tx Database) :
    Option (BlockExecution Tx Database) :=
  moves.foldlM (fun block move => block.perform cryptoShorthash library store programs move) block

def Quiescent (block : BlockExecution Tx Database) : Prop :=
  block.books.held = [] ∧ ∀ tx, block.closures tx = []

instance [Fintype Tx] (block : BlockExecution Tx Database) : Decidable block.Quiescent :=
  inferInstanceAs (Decidable (_ ∧ _))

/-- The moves of a block from its start, and then `phase_finish_block` over the logged keys,
if the block has come to rest. -/
def finishAll [Fintype Tx] (newKey : HashKey) (thread : Fin tlcacheSize) (timestamp : UInt32)
    (moves : List (BlockMove Tx)) (before : GlobalContext Database) :
    Option (BlockExecution Tx Database × GlobalContext Database) :=
  (performAll cryptoShorthash library store programs moves (.start before)).bind fun last =>
    (store.commitModifications newKey last.modifiedKeys
      last.globalContext.stateDb).toOption.bind fun stateDb =>
        (last.globalContext.contractDb.commit thread timestamp).toOption.bind fun contractDb =>
          if last.Quiescent then some (last, { stateDb := stateDb, contractDb := contractDb })
          else none

end BlockExecution

def MovesBlock (cryptoShorthash : CryptoShorthash) (library : ContractLibrary)
    {Tx : Type*} {Database : Type} [DecidableEq Tx] (store : StateStore Database)
    (programs : Tx → Program) (block : BlockExecution Tx Database) (move : BlockMove Tx)
    (next : BlockExecution Tx Database) : Prop :=
  block.perform cryptoShorthash library store programs move = some next

inductive BlockMoveCases (cryptoShorthash : CryptoShorthash) (library : ContractLibrary)
    {Tx : Type*} {Database : Type} [DecidableEq Tx] (store : StateStore Database)
    (programs : Tx → Program) (block : BlockExecution Tx Database) :
    BlockMove Tx → BlockExecution Tx Database → Prop
  | went {tx : Tx} (running : (block.contexts tx).status = .running)
      (status : (block.advanced library store programs tx).status = .running) :
      BlockMoveCases cryptoShorthash library store programs block (.call tx)
        { block with
          contexts := Function.update block.contexts tx
            (block.advanced library store programs tx) }
  | returned {tx : Tx} (running : (block.contexts tx).status = .running)
      (status : (block.advanced library store programs tx).status = .returned) :
      BlockMoveCases cryptoShorthash library store programs block (.call tx)
        { block with
          contexts := Function.update block.contexts tx (block.advanced library store programs tx)
          books := block.books.begin tx
            (block.advanced library store programs tx).storageProxy.deltas }
  | threw {tx : Tx} {what : String} (running : (block.contexts tx).status = .running)
      (status : (block.advanced library store programs tx).status = .threw (.hostError what)) :
      BlockMoveCases cryptoShorthash library store programs block (.call tx)
        { block with
          contexts := Function.update block.contexts tx (block.advanced library store programs tx)
          books := block.books.refuse tx }
  | accepted {tx : Tx} {ids : CallIds} {key : AddressAndKey} {delta : StorageDelta}
      {rest : List (AddressAndKey × StorageDelta)} {rewind : DeltaRewind} {after : Database}
      (status : (block.contexts tx).status = .returned)
      (phase : block.books.phase tx = .pushing ((key, delta) :: rest))
      (applied : store.tryApplyDelta (block.issued ids) key delta block.globalContext.stateDb =
        .ok (some rewind, after)) :
      BlockMoveCases cryptoShorthash library store programs block (.push tx ids)
        { block.withPush store ids key delta after with
          books := block.books.accept tx (key, rewind) rest }
  | rejected {tx : Tx} {ids : CallIds} {key : AddressAndKey} {delta : StorageDelta}
      {rest : List (AddressAndKey × StorageDelta)} {after : Database}
      (status : (block.contexts tx).status = .returned)
      (phase : block.books.phase tx = .pushing ((key, delta) :: rest))
      (applied : store.tryApplyDelta (block.issued ids) key delta block.globalContext.stateDb =
        .ok (none, after)) :
      BlockMoveCases cryptoShorthash library store programs block (.push tx ids)
        { block.withPush store ids key delta after with books := block.books.refuse tx }
  | gaveUp {tx : Tx} {remaining : List (AddressAndKey × StorageDelta)}
      (status : (block.contexts tx).status = .returned)
      (phase : block.books.phase tx = .pushing remaining) :
      BlockMoveCases cryptoShorthash library store programs block (.giveUp tx)
        { block with books := block.books.refuse tx }
  | passed {tx : Tx} {deploys : List (Address × Hash)}
      {creates : List (Hash × MeteredContract × Contract)} {proxy : ContractDBProxy}
      (status : (block.contexts tx).status = .returned)
      (phase : block.books.phase tx = .pushing [])
      (updates : (block.contexts tx).contractDbProxy.pushUpdatesToDb =
        .ok (deploys, creates, proxy)) :
      BlockMoveCases cryptoShorthash library store programs block (.pass tx)
        { block with
          modifiedKeys := block.modifiedKeys ∪ (block.contexts tx).storageProxy.loggedKeys
          books := block.books.decide tx
          closures := Function.update block.closures tx (contractClosures deploys creates) }
  | committed {position : Nat} {tx : Tx} {key : AddressAndKey} {rewind : DeltaRewind}
      {after : Database} (found : block.books.held[position]? = some (tx, key, rewind))
      (phase : block.books.phase tx = .committing)
      (through : store.throughRewind key rewind.commit block.globalContext.stateDb = .ok after) :
      BlockMoveCases cryptoShorthash library store programs block (.commit position)
        { block.withStateDb after with
          books := block.books.commitAt position (key, rewind.delta) }
  | closed {tx : Tx} {thread : Fin tlcacheSize} {closure : ContractClosure}
      {rest : List ContractClosure} {contractDb : ContractDB}
      (next : block.closures tx = closure :: rest)
      (run : closure.run thread block.globalContext.contractDb = .ok contractDb) :
      BlockMoveCases cryptoShorthash library store programs block (.close tx thread)
        { block with
          globalContext := { block.globalContext with contractDb := contractDb }
          closures := Function.update block.closures tx rest }
  | destroyed {position : Nat} {newId : UniqueId} {tx : Tx} {key : AddressAndKey}
      {rewind : DeltaRewind} {after : Database}
      (found : block.books.held[position]? = some (tx, key, rewind))
      (phase : block.books.phase tx = .aborting)
      (through : store.throughRewind key (rewind.destroy cryptoShorthash newId)
        block.globalContext.stateDb = .ok after) :
      BlockMoveCases cryptoShorthash library store programs block (.destroy position newId)
        { block.withStateDb after with books := block.books.destroyAt position }
  | persisted :
      BlockMoveCases cryptoShorthash library store programs block .persist
        { block with
          globalContext :=
            { block.globalContext with contractDb := block.globalContext.contractDb.persist } }

section Moves

variable {cryptoShorthash : CryptoShorthash} {library : ContractLibrary} {Tx : Type*}
  {Database : Type} [DecidableEq Tx] {store : StateStore Database} {programs : Tx → Program}
  {block next : BlockExecution Tx Database} {move : BlockMove Tx}

theorem block_move_cases
    (moves : MovesBlock cryptoShorthash library store programs block move next) :
    BlockMoveCases cryptoShorthash library store programs block move next := by
  unfold MovesBlock BlockExecution.perform at moves
  cases move with
  | call tx =>
      simp only at moves
      split at moves
      · rename_i running status
        cases moves
        exact .went running status
      · rename_i running status
        cases moves
        exact .returned running status
      · rename_i running status
        cases moves
        exact .threw running status
      · cases moves
  | push tx ids =>
      simp only at moves
      split at moves
      · rename_i status phase
        split at moves
        · rename_i applied
          cases moves
          exact .accepted status phase applied
        · rename_i applied
          cases moves
          exact .rejected status phase applied
        · cases moves
      · cases moves
  | giveUp tx =>
      simp only at moves
      split at moves
      · rename_i status phase
        cases moves
        exact .gaveUp status phase
      · cases moves
  | pass tx =>
      simp only at moves
      split at moves
      · rename_i status phase
        split at moves
        · rename_i updates
          cases moves
          exact .passed status phase updates
        · cases moves
      · cases moves
  | commit position =>
      simp only at moves
      split at moves
      · rename_i found
        split at moves
        · rename_i phase
          split at moves
          · rename_i through
            cases moves
            exact .committed found phase through
          · cases moves
        · cases moves
      · cases moves
  | close tx thread =>
      simp only at moves
      split at moves
      · rename_i next
        split at moves
        · rename_i run
          cases moves
          exact .closed next run
        · cases moves
      · cases moves
  | destroy position newId =>
      simp only at moves
      split at moves
      · rename_i found
        split at moves
        · rename_i phase
          split at moves
          · rename_i through
            cases moves
            exact .destroyed found phase through
          · cases moves
        · cases moves
      · cases moves
  | persist =>
      cases moves
      exact .persisted

theorem run_of_perform_all {moves : List (BlockMove Tx)} {last : BlockExecution Tx Database}
    (performed : block.performAll cryptoShorthash library store programs moves = some last) :
    Run (MovesBlock cryptoShorthash library store programs) block moves last :=
  run_of_fold performed

theorem finish_all_ends [Fintype Tx] {newKey : HashKey} {thread : Fin tlcacheSize}
    {timestamp : UInt32} {moves : List (BlockMove Tx)} {before after : GlobalContext Database}
    {last : BlockExecution Tx Database}
    (finished : BlockExecution.finishAll cryptoShorthash library store programs newKey thread
      timestamp moves before = some (last, after)) :
    Run (MovesBlock cryptoShorthash library store programs) (.start before) moves last ∧
      last.Quiescent ∧
      last.globalContext.contractDb.commit thread timestamp = .ok after.contractDb ∧
      store.commitModifications newKey last.modifiedKeys last.globalContext.stateDb =
        .ok after.stateDb := by
  obtain ⟨block, ran, rest⟩ := Option.bind_eq_some_iff.mp finished
  obtain ⟨stateDb, modifications, rest⟩ := Option.bind_eq_some_iff.mp rest
  obtain ⟨contractDb, contracts, rest⟩ := Option.bind_eq_some_iff.mp rest
  split_ifs at rest with quiescent
  cases rest
  exact ⟨run_of_perform_all ran, quiescent, to_option_some contracts,
    to_option_some modifications⟩

end Moves

/-! ## Blocks in a row -/

/-- The end of a block that any transactions ran in: `phase_finish_block` or
`phase_undo_block` over the keys that were logged. -/
inductive EndsBlock (cryptoShorthash : CryptoShorthash) (library : ContractLibrary) (Tx : Type)
    {Database : Type} [DecidableEq Tx] (store : StateStore Database) :
    GlobalContext Database → GlobalContext Database → Prop
  | finished {before : GlobalContext Database} {programs : Tx → Program}
      {moves : List (BlockMove Tx)} {last : BlockExecution Tx Database} {newKey : HashKey}
      {keys : List AddressAndKey} {stateDb : Database} {contractDb : ContractDB}
      {thread : Fin tlcacheSize} {timestamp : UInt32}
      (run : Run (MovesBlock cryptoShorthash library store programs) (.start before) moves last)
      (quiescent : last.Quiescent) (logged : keys.Perm last.modifiedKeys)
      (contracts : last.globalContext.contractDb.commit thread timestamp = .ok contractDb)
      (modifications : store.commitModifications newKey keys last.globalContext.stateDb =
        .ok stateDb) :
      EndsBlock cryptoShorthash library Tx store before
        { stateDb := stateDb, contractDb := contractDb }
  | undone {before : GlobalContext Database} {programs : Tx → Program}
      {moves : List (BlockMove Tx)} {last : BlockExecution Tx Database} {newKey : HashKey}
      {keys : List AddressAndKey} {stateDb : Database}
      (run : Run (MovesBlock cryptoShorthash library store programs) (.start before) moves last)
      (quiescent : last.Quiescent) (logged : keys.Perm last.modifiedKeys)
      (modifications : store.rewindModifications newKey keys last.globalContext.stateDb =
        .ok stateDb) :
      EndsBlock cryptoShorthash library Tx store before
        { stateDb := stateDb, contractDb := last.globalContext.contractDb.rewind }

end Scs
