import Scs.StateDb.SettlingStore
import Scs.TransactionContext.BlockLog
import Scs.TransactionContext.ContractBindings
import Scs.TransactionContext.SnapshotReads

/-!
# Undoing a block (`phase/phases.cc`, `RewindFn` in `state_db/state_db.cc`)

Within a block an object keeps its committed value, its type and its table size.
`rewind_round` resets the rest, so an undone object does not tell what the block
did to it. The contracts that the block has created are another matter: `nowrite`
swaps them into the work item, which the next commit has saved.
-/

namespace Scs

set_option autoImplicit false

open Ledger Runs Lockstep

def phaseUndoBlock (newKey : HashKey) (keys : List AddressAndKey)
    (globalContext : GlobalContext StateDB) : GlobalContext StateDB where
  stateDb := globalContext.stateDb.rewindModifications newKey keys
  contractDb := globalContext.contractDb.rewind

/-- An object over the committed value of another, with nothing counted. -/
structure FreshlyReset (object again : RevertableObject) : Prop where
  committedBase : again.committedBase = object.committedBase
  baseObj : again.baseObj =
    { tag := 0, obj := none, requiredType := object.baseObj.requiredType }
  totalSubtracted : again.totalSubtracted = 0
  totalAdded : again.totalAdded = .zero
  sizeIncrease : again.sizeIncrease = 0
  newHashes : again.newHashes = .vacant object.newHashes.capacity
  numNewElts : again.numNewElts = 0
  hashsetClearCommitted : again.hashsetClearCommitted = false
  maxCommittedClearThreshold : again.maxCommittedClearThreshold = 0
  deleteLastCommitted : again.deleteLastCommitted = false
  availableAsset : again.availableAsset = assetAmount object.committedBase
  availableAssetUpperbound : again.availableAssetUpperbound = assetAmount object.committedBase

/-- No script or address waits for the next commit, and nothing that the background
thread would save with it. -/
structure NothingPending (contractDb : ContractDB) : Prop where
  uncommitted : contractDb.uncommittedContracts = .empty
  unmodified : contractDb.hasUncommittedModifications = false
  workItem : ContractBuffers.records contractDb.persistence.workItem = 0
  cache : ContractBuffers.records contractDb.persistence.cache = 0

/-- The committed state that undoing a block leaves, for the deltas that were committed
in it. -/
structure BlockRestored (keyedShorthash : KeyedShorthash) (before after : GlobalContext StateDB)
    (committed : Multiset (AddressAndKey × StorageDelta)) : Prop where
  committedValues : ∀ key,
    after.stateDb.getCommittedValue key = before.stateDb.getCommittedValue key
  reset : ∀ item ∈ committed, ∀ object, before.stateDb.stateDb item.1 = some object →
    ∃ again, after.stateDb.stateDb item.1 = some again ∧ FreshlyReset object again
  absent : ∀ key, before.stateDb.stateDb key = none → after.stateDb.stateDb key = none
  newKeys : ∀ key, after.stateDb.newKeyCache.find keyedShorthash key = none
  scripts : after.contractDb.hashesToContracts = before.contractDb.hashesToContracts
  addresses : after.contractDb.addressesToContracts = before.contractDb.addressesToContracts

/-- Undone: the state is restored, and nothing is left for the next commit. The creations
that were logged for the contract files are left, unless there are none. -/
structure BlockUndone (keyedShorthash : KeyedShorthash) (before after : GlobalContext StateDB)
    (committed : Multiset (AddressAndKey × StorageDelta)) : Prop where
  restored : BlockRestored keyedShorthash before after committed
  pending : NothingPending after.contractDb

section Footing

variable {first second third : RevertableObject}

theorem SameFooting.refl (object : RevertableObject) : SameFooting object object :=
  ⟨rfl, rfl, rfl⟩

theorem SameFooting.trans (early : SameFooting first second) (late : SameFooting second third) :
    SameFooting first third where
  committedBase := late.committedBase.trans early.committedBase
  requiredType := late.requiredType.trans early.requiredType
  capacity := late.capacity.trans early.capacity

theorem rewind_round_resets (footing : SameFooting first second) :
    FreshlyReset first second.rewindRound := by
  have amount : ∀ base : Option StorageObject, second.committedBase = base →
      second.rewindRound.availableAsset = assetAmount base ∧
        second.rewindRound.availableAssetUpperbound = assetAmount base := by
    rintro _ rfl
    unfold RevertableObject.rewindRound RevertableObject.clearMods assetAmount
    cases second.committedBase with
    | none => exact ⟨rfl, rfl⟩
    | some stored =>
        obtain ⟨body, escrowedFee⟩ := stored
        cases body <;> exact ⟨rfl, rfl⟩
  have word : second.rewindRound.baseObj =
      { tag := 0, obj := none, requiredType := second.baseObj.requiredType } := rfl
  have table : second.rewindRound.newHashes = .vacant second.newHashes.capacity := rfl
  exact
    { committedBase := footing.committedBase
      baseObj := by rw [word, footing.requiredType]
      totalSubtracted := rfl
      totalAdded := rfl
      sizeIncrease := rfl
      newHashes := by rw [table, footing.capacity]
      numNewElts := rfl
      hashsetClearCommitted := rfl
      maxCommittedClearThreshold := rfl
      deleteLastCommitted := rfl
      availableAsset := (amount _ footing.committedBase).1
      availableAssetUpperbound := (amount _ footing.committedBase).2 }

end Footing

/-! ## The entries of the trie within a block -/

section Entries

variable {cryptoShorthash : CryptoShorthash} {keyedShorthash : KeyedShorthash}
  {before db after : StateDB} {key : AddressAndKey}

def EntriesKept (before db : StateDB) : Prop :=
  ∀ key, Option.Rel SameFooting (before.stateDb key) (db.stateDb key)

theorem entries_kept_refl (db : StateDB) : EntriesKept db db := by
  intro key
  cases db.stateDb key with
  | none => exact .none
  | some object => exact .some (SameFooting.refl object)

theorem entries_kept_update (kept : EntriesKept before db) {object changed : RevertableObject}
    (entry : db.stateDb key = some object) (footing : SameFooting object changed)
    (newKeyCache : NewKeyCache) (hasUncommittedDeltas : Bool) :
    EntriesKept before
      { stateDb := Function.update db.stateDb key (some changed)
        newKeyCache := newKeyCache
        hasUncommittedDeltas := hasUncommittedDeltas } := by
  intro other
  by_cases same : other = key
  · subst same
    have here := kept other
    simp only [Function.update_self]
    rw [entry] at here
    generalize before.stateDb other = start at here ⊢
    cases here with
    | some early => exact .some (early.trans footing)
  · simp only [Function.update_of_ne same]
    exact kept other

theorem push_entries_kept (kept : EntriesKept before db) {ids : CallIds} {delta : StorageDelta}
    {answer : Option DeltaRewind}
    (applied : db.tryApplyDelta cryptoShorthash keyedShorthash ids key delta =
      .ok (answer, after)) : EntriesKept before after := by
  unfold StateDB.tryApplyDelta at applied
  cases entry : db.stateDb key with
  | none =>
      rw [entry] at applied
      obtain ⟨outcome, _, same⟩ := bind_ok_iff.mp applied
      cases same
      exact kept
  | some object =>
      rw [entry] at applied
      obtain ⟨⟨_, changed⟩, returned, same⟩ := bind_ok_iff.mp applied
      cases same
      exact entries_kept_update kept entry (try_add_delta_footing returned) _ _

theorem through_entries_kept (kept : EntriesKept before db)
    {call : RevertableObject → Except Fault RevertableObject}
    (footing : ∀ object changed, call object = .ok changed → SameFooting object changed)
    (through : db.throughRewind keyedShorthash key call = .ok after) :
    EntriesKept before after := by
  unfold StateDB.throughRewind at through
  cases entry : db.stateDb key with
  | none =>
      rw [entry] at through
      simp only at through
      cases cached : db.newKeyCache.find keyedShorthash key with
      | none =>
          rw [cached] at through
          cases through
      | some object =>
          rw [cached] at through
          obtain ⟨changed, _, same⟩ := bind_ok_iff.mp through
          cases same
          exact kept
  | some object =>
      rw [entry] at through
      obtain ⟨changed, returned, same⟩ := bind_ok_iff.mp through
      cases same
      exact entries_kept_update kept entry (footing object changed returned) _ _

theorem moves_entries_kept {library : ContractLibrary} {Tx : Type*} [DecidableEq Tx]
    {programs : Tx → Program} (block : BlockExecution Tx StateDB) (move : BlockMove Tx)
    (next : BlockExecution Tx StateDB) (kept : EntriesKept before block.globalContext.stateDb)
    (moves : MovesBlock cryptoShorthash library (StateDB.store cryptoShorthash keyedShorthash)
      programs block move next) : EntriesKept before next.globalContext.stateDb := by
  cases block_move_cases moves with
  | accepted status phase applied => exact push_entries_kept kept applied
  | rejected status phase applied => exact push_entries_kept kept applied
  | committed found phase through =>
      exact through_entries_kept kept (fun _ _ => commit_footing) through
  | destroyed found phase through =>
      exact through_entries_kept kept (fun _ _ => destroy_footing) through
  | _ => exact kept

end Entries

/-! ## What is left to save -/

/-- The rewind empties the live buffers into the work item, so the records that it leaves
are those that it finds there. -/
theorem nothing_pending_iff {contractDb : ContractDB} :
    NothingPending contractDb.rewind ↔
      ContractBuffers.records contractDb.persistence.cache = 0 := by
  constructor
  · intro nothing
    exact nothing.workItem
  · intro empty
    exact
      { uncommitted := rfl
        unmodified := rfl
        workItem := empty
        cache := records_empty }

/-- An idle background thread, and live buffers that hold a record once the block has a new
script. -/
structure LogsCreations (contractDb : ContractDB) : Prop where
  idle : contractDb.persistence.existsWorkToDo = false
  logged : ContractBuffers.records contractDb.persistence.cache = 0 ↔
    contractDb.uncommittedContracts.newContracts.entries = []

theorem persist_logs_creations {contractDb : ContractDB} (logs : LogsCreations contractDb) :
    LogsCreations contractDb.persist := by
  have waits : contractDb.persistence.run = contractDb.persistence := by
    unfold AsyncPersistContracts.run
    rw [logs.idle, Bool.not_false, Bool.or_true, if_pos rfl]
  unfold ContractDB.persist
  rw [waits]
  exact logs

theorem closure_logs_creations {thread : Fin tlcacheSize} {closure : ContractClosure}
    {contractDb after : ContractDB} (logs : LogsCreations contractDb)
    (run : closure.run thread contractDb = .ok after) : LogsCreations after := by
  cases closure with
  | deploy deployAddress contractHash =>
      cases run
      exact ⟨logs.idle, logs.logged⟩
  | create h contract unmeteredContract =>
      obtain ⟨contracts, added, same⟩ := bind_ok_iff.mp run
      cases same
      obtain ⟨_, rfl⟩ := UncommittedContracts.add_new_contract_ok_iff.mp added
      refine ⟨logs.idle, ?_⟩
      have recorded := records_log_create thread h unmeteredContract contractDb.persistence
      have found : (contractDb.uncommittedContracts.newContracts.assign h contract).find h =
          some contract := SortedMap.find_assign_self
      have entered := SortedMap.mem_entries_iff.mpr found
      constructor
      · intro empty
        exact absurd (recorded.symm.trans empty) (Multiset.cons_ne_zero)
      · intro empty
        exact absurd entered (empty ▸ List.not_mem_nil)

section Creations

variable {cryptoShorthash : CryptoShorthash} {library : ContractLibrary} {Tx : Type*}
  {Database : Type} [DecidableEq Tx] {store : StateStore Database} {programs : Tx → Program}

theorem moves_logs_creations (block : BlockExecution Tx Database) (move : BlockMove Tx)
    (next : BlockExecution Tx Database)
    (logs : LogsCreations block.globalContext.contractDb)
    (moves : MovesBlock cryptoShorthash library store programs block move next) :
    LogsCreations next.globalContext.contractDb := by
  cases block_move_cases moves with
  | closed closures run => exact closure_logs_creations logs run
  | persisted => exact persist_logs_creations logs
  | _ => exact logs

/-- In a block that starts at rest, the live buffers are empty as long as no committed
transaction has created a script. -/
theorem run_logs_creations {before : GlobalContext Database} {moves : List (BlockMove Tx)}
    {block : BlockExecution Tx Database} (logs : LogsCreations before.contractDb)
    (run : Run (MovesBlock cryptoShorthash library store programs) (.start before) moves block) :
    LogsCreations block.globalContext.contractDb :=
  run_invariant (fun block : BlockExecution Tx Database =>
    LogsCreations block.globalContext.contractDb) moves_logs_creations logs run

end Creations

/-! ## The rewind -/

/-- Undoing a block restores the state, whatever its transactions have done. Only the tables
keep their size, the words another swap id, and the contract files what was logged for them.
-/
theorem rewind_restores {cryptoShorthash : CryptoShorthash} {keyedShorthash : KeyedShorthash}
    {library : ContractLibrary} {Tx : Type*} [DecidableEq Tx] {programs : Tx → Program}
    {before : GlobalContext StateDB} {moves : List (BlockMove Tx)}
    {block : BlockExecution Tx StateDB}
    (run : Run (MovesBlock cryptoShorthash library (StateDB.store cryptoShorthash keyedShorthash)
      programs) (.start before) moves block)
    (newKey : HashKey) {keys : List AddressAndKey} (logged : keys.Perm block.modifiedKeys) :
    BlockRestored keyedShorthash before (phaseUndoBlock newKey keys block.globalContext)
      block.books.committed := by
  have kept : EntriesKept before.stateDb block.globalContext.stateDb :=
    run_invariant (fun block : BlockExecution Tx StateDB =>
      EntriesKept before.stateDb block.globalContext.stateDb) moves_entries_kept
      (entries_kept_refl before.stateDb) run
  have frozen : block.globalContext.contractDb.snapshot = before.contractDb.snapshot := by
    have same := run_related
      (fun early late : BlockExecution Tx StateDB =>
        late.snapshot (StateDB.store cryptoShorthash keyedShorthash) =
          early.snapshot (StateDB.store cryptoShorthash keyedShorthash))
      (fun _ => rfl) (fun _ _ _ early late => late.trans early)
      (snapshot_frozen state_db_steady) run
    exact congrArg Prod.snd same
  have scripts := congrArg ContractDB.hashesToContracts frozen
  have addresses := congrArg ContractDB.addressesToContracts frozen
  have entry (key : AddressAndKey) :
      (phaseUndoBlock newKey keys block.globalContext).stateDb.stateDb key =
        if key ∈ keys then (block.globalContext.stateDb.stateDb key).map
          RevertableObject.rewindRound
        else block.globalContext.stateDb.stateDb key := rewind_keys_at keys _ key
  refine
    { committedValues := ?_
      reset := ?_
      absent := ?_
      newKeys := ?_
      scripts := scripts
      addresses := addresses }
  · intro key
    have here := kept key
    unfold StateDB.getCommittedValue
    rw [entry key]
    generalize before.stateDb.stateDb key = start at here
    generalize block.globalContext.stateDb.stateDb key = last at here
    cases here with
    | none => split_ifs <;> rfl
    | some footing => split_ifs <;> exact footing.committedBase
  · intro item member object stored
    have here := kept item.1
    have listed : item.1 ∈ keys :=
      logged.mem_iff.mpr ((run_logged run).committed item member)
    rw [stored] at here
    rw [entry, if_pos listed]
    generalize block.globalContext.stateDb.stateDb item.1 = last at here
    cases here with
    | some footing => exact ⟨_, rfl, rewind_round_resets footing⟩
  · intro key missing
    have here := kept key
    rw [missing] at here
    rw [entry]
    generalize block.globalContext.stateDb.stateDb key = last at here
    cases here with
    | none => split_ifs <;> rfl
  · intro key
    unfold phaseUndoBlock StateDB.rewindModifications
    simp only [rewind_keys_cache, NewKeyCache.clearForNextBlock, NewKeyCache.find_empty]

/-- Undoing a block restores the state, and leaves nothing pending if and only if the live
buffers of the persistence are empty when it runs. -/
theorem undo_restores_iff (cryptoShorthash : CryptoShorthash) (keyedShorthash : KeyedShorthash)
    (library : ContractLibrary) {Tx : Type*} [DecidableEq Tx] (programs : Tx → Program)
    (before : GlobalContext StateDB) {moves : List (BlockMove Tx)}
    {block : BlockExecution Tx StateDB}
    (run : Run (MovesBlock cryptoShorthash library (StateDB.store cryptoShorthash keyedShorthash)
      programs) (.start before) moves block)
    (newKey : HashKey) {keys : List AddressAndKey} (logged : keys.Perm block.modifiedKeys) :
    BlockRestored keyedShorthash before (phaseUndoBlock newKey keys block.globalContext)
        block.books.committed ∧
      (BlockUndone keyedShorthash before (phaseUndoBlock newKey keys block.globalContext)
          block.books.committed ↔
        ContractBuffers.records block.globalContext.contractDb.persistence.cache = 0) := by
  have restored := rewind_restores run newKey logged
  refine ⟨restored, ?_⟩
  constructor
  · intro undone
    exact nothing_pending_iff.mp undone.pending
  · intro empty
    exact ⟨restored, nothing_pending_iff.mpr empty⟩

def threeStored : GlobalContext StateDB where
  stateDb := .ofCommitted 0 fun key =>
    if key = 7 then some { body := .nonnegativeInt64 3, escrowedFee := 0 } else none
  contractDb := .empty

theorem empty_logs_creations : LogsCreations .empty where
  idle := rfl
  logged := ⟨fun _ => rfl, fun _ => records_empty⟩

theorem undo_restores_committed :
    ∃ block, BlockExecution.performAll (fun _ => 0) noContracts
        (StateDB.store (fun _ => 0) fun _ _ => 0) readThenAdd
        [.call false, .call false, .call false, .push false .first, .pass false, .commit 0]
        (.start threeStored) = some block ∧ block.books.committed.card = 1 ∧
      BlockUndone (fun _ _ => 0) threeStored
        (phaseUndoBlock 1 block.modifiedKeys block.globalContext) block.books.committed := by
  have committed : (BlockExecution.performAll (fun _ => 0) noContracts
      (StateDB.store (fun _ => 0) fun _ _ => 0) readThenAdd
      [.call false, .call false, .call false, .push false .first, .pass false, .commit 0]
      (.start threeStored)).map (fun block => (block.books.committed.card,
        block.globalContext.contractDb.uncommittedContracts.newContracts.entries)) =
        some (1, []) := by
    decide +kernel
  obtain ⟨block, ran, facts⟩ := Option.map_eq_some_iff.mp committed
  simp only [Prod.mk.injEq] at facts
  obtain ⟨one, nothing⟩ := facts
  have run := run_of_perform_all ran
  have logs := run_logs_creations empty_logs_creations run
  have undone := undo_restores_iff _ _ _ readThenAdd threeStored run 1 (List.Perm.refl _)
  exact ⟨block, ran, one, undone.2.mpr (logs.logged.mpr nothing)⟩

/-- A transaction commits, and with it the creation of a script; the block is undone. The
commit of the next block has the background thread save the creation. -/
theorem undo_keeps_creation :
    ∃ block contractDb, BlockExecution.performAll (fun _ => 0) oneContract
        (StateDB.store (fun _ => 0) fun _ _ => 0) createAndDeploy deployedMoves
        (.start nothingStored) = some block ∧ block.Quiescent ∧
      (phaseUndoBlock 1 block.modifiedKeys block.globalContext).contractDb.commit firstThread 2 =
        .ok contractDb ∧
      contractDb.persistence.existsWorkToDo = true ∧
      ContractBuffers.records contractDb.persistence.workItem =
        {.create { h := 5, unmeteredContract := [0] }} ∧
      ¬ BlockUndone (fun _ _ => 0) nothingStored
        (phaseUndoBlock 1 block.modifiedKeys block.globalContext) block.books.committed := by
  have recorded : ContractBuffers.records
      (AsyncPersistContracts.start.logCreate firstThread 5 [0]).cache =
        {.create { h := 5, unmeteredContract := [0] }} := by
    rw [records_log_create]
    exact congrArg _ records_empty
  have quiet {block : BlockExecution Bool StateDB} (held : block.books.held = [])
      (left : block.closures true = []) (right : block.closures false = []) : block.Quiescent :=
    ⟨held, fun tx => by cases tx <;> assumption⟩
  refine ⟨_, _, rfl, quiet rfl rfl rfl, rfl, rfl, recorded, ?_⟩
  intro undone
  have nothing := recorded.symm.trans undone.pending.workItem
  exact absurd nothing (Multiset.singleton_ne_zero _)

end Scs
