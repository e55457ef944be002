import Scs.Phase.SisyphusBlock
import Scs.StateDb.TableCapacity
import Scs.TransactionContext.ProposedBlock

/-!
# From one replicated block to the next

A proposer may have given up on transactions, and their insertions keep their slots until
the key is committed again. A follower has given up on none. So the tables of the follower
have the room that those of the proposer had, block after block.
-/

namespace Scs

set_option autoImplicit false

open Ledger Lockstep Runs TwoPhase

/-! ## Nodes with a trie -/

structure TrieNode (cryptoShorthash : CryptoShorthash) where
  Database : Type
  store : StateStore Database
  lens : TrieStore cryptoShorthash store
  respond : RespondingStore lens.settlingStore.toObjectStore
  steady : SteadyStore store

def StateDBv2.trieNode (cryptoShorthash : CryptoShorthash) : TrieNode cryptoShorthash where
  Database := StateDBv2
  store := StateDBv2.store cryptoShorthash
  lens := StateDBv2.trieStore cryptoShorthash
  respond := StateDBv2.respondingStore cryptoShorthash
  steady := state_db_v2_steady

def GroundhogPersistentStateDB.trieNode (cryptoShorthash : CryptoShorthash) :
    TrieNode cryptoShorthash where
  Database := GroundhogPersistentStateDB
  store := GroundhogPersistentStateDB.store cryptoShorthash
  lens := GroundhogPersistentStateDB.trieStore cryptoShorthash
  respond := GroundhogPersistentStateDB.respondingStore cryptoShorthash
  steady := groundhog_steady

variable {cryptoShorthash : CryptoShorthash}

def TrieNode.node (trieNode : TrieNode cryptoShorthash) : Node cryptoShorthash where
  Database := trieNode.Database
  store := trieNode.store
  view := trieNode.lens.settlingStore
  respond := trieNode.respond
  steady := trieNode.steady

def TrieNode.object (trieNode : TrieNode cryptoShorthash) (key : AddressAndKey)
    (db : trieNode.Database) : RevertableObject :=
  (trieNode.lens.trie db).objects key

theorem stored_object_kept {trie : StateTrie} (stored : trie.Stored) (key : AddressAndKey) :
    (trie.objects key).kept = trie.objects key := by
  unfold StateTrie.objects
  cases entry : trie key with
  | none => rfl
  | some object =>
      obtain ⟨committed, found⟩ := Option.ne_none_iff_exists'.mp (stored key object entry)
      exact kept_committed found

theorem TrieNode.commit_keeps (trieNode : TrieNode cryptoShorthash) {newKey : HashKey}
    {keys : List AddressAndKey} {db after : trieNode.Database} (distinct : keys.Nodup)
    (returned : trieNode.store.commitModifications newKey keys db = .ok after) :
    KeptEnds RevertableObject.commitRound keys (trieNode.lens.trie db).objects
        (trieNode.lens.trie after).objects ∧
      (trieNode.lens.trie after).Stored := by
  have pass := map_ok (trieNode.lens.commit _ _ _) returned
  refine ⟨trie_commit_keeps distinct pass, ?_⟩
  obtain ⟨updated, _, same⟩ := bind_ok_iff.mp pass
  rw [← Except.ok.inj same]
  exact normalize_stored updated

theorem TrieNode.rewind_keeps (trieNode : TrieNode cryptoShorthash) {newKey : HashKey}
    {keys : List AddressAndKey} {db after : trieNode.Database} (distinct : keys.Nodup)
    (returned : trieNode.store.rewindModifications newKey keys db = .ok after) :
    KeptEnds rewindFinish keys (trieNode.lens.trie db).objects (trieNode.lens.trie after).objects ∧
      (trieNode.lens.trie after).Stored := by
  have pass := map_ok (trieNode.lens.rewind _ _ _) returned
  refine ⟨trie_rewind_keeps distinct pass, ?_⟩
  obtain ⟨rewound, _, same⟩ := bind_ok_iff.mp pass
  rw [← Except.ok.inj same]
  exact normalize_stored rewound

/-! ## Tables between blocks -/

def RevertableObject.Vacant (object : RevertableObject) : Prop :=
  object.newHashes.freeSlots = object.newHashes.capacity.toNat

theorem kept_vacant {object : RevertableObject} (vacant : object.Vacant) : object.kept.Vacant := by
  cases stored : object.getCommittedObject with
  | none =>
      rw [kept_uncommitted stored]
      exact (round_start_over (fun _ => 0) none).vacant
  | some committed =>
      rw [kept_committed stored]
      exact vacant

/-- The nodes have committed the same, and the follower has room for what the proposer has
room for. -/
structure InStep (proposer follower : TrieNode cryptoShorthash)
    (left : GlobalContext proposer.Database) (right : GlobalContext follower.Database) : Prop where
  proposerRests : proposer.node.BetweenBlocks left
  followerRests : follower.node.BetweenBlocks right
  proposerStored : (proposer.lens.trie left.stateDb).Stored
  followerStored : (follower.lens.trie right.stateDb).Stored
  values : proposer.node.values left = follower.node.values right
  contracts : left.contractDb.snapshot = right.contractDb.snapshot
  noAssets : ∀ key object, proposer.node.values left key = some object →
    object.body.type ≠ .knownSupplyAsset
  capacities : ∀ key, (proposer.object key left.stateDb).newHashes.capacity ≤
    (follower.object key right.stateDb).newHashes.capacity
  vacant : ∀ key, (follower.object key right.stateDb).Vacant

variable {proposer follower : TrieNode cryptoShorthash}
  {left : GlobalContext proposer.Database} {right : GlobalContext follower.Database}

theorem InStep.same (inStep : InStep proposer follower left right) :
    SameState proposer.node follower.node left right where
  values := inStep.values
  contracts := inStep.contracts
  noAssets := inStep.noAssets
  slots key := by
    have occupied := (proposer.object key left.stateDb).newHashes.occupied_le_capacity
    have ordered := UInt32.le_iff_toNat_le.mp (inStep.capacities key)
    have empty : (follower.object key right.stateDb).newHashes.freeSlots =
        (follower.object key right.stateDb).newHashes.capacity.toNat := inStep.vacant key
    have proposerSlots : proposer.node.freeSlots key left =
        (proposer.object key left.stateDb).newHashes.freeSlots := rfl
    have followerSlots : follower.node.freeSlots key right =
        (follower.object key right.stateDb).newHashes.freeSlots := rfl
    omega

/-! ## A block that the follower has executed -/

section Executed

variable {library : ContractLibrary} {Tx : Type} [DecidableEq Tx] {programs : Tx → Program}
  {proposed : BlockExecution Tx proposer.Database} {block : BlockExecution Tx follower.Database}

theorem TrieNode.block_capacity (trieNode : TrieNode cryptoShorthash)
    {before : GlobalContext trieNode.Database} {moves : List (BlockMove Tx)}
    {last : BlockExecution Tx trieNode.Database}
    (run : Run (MovesBlock cryptoShorthash library trieNode.store programs) (.start before) moves
      last) (key : AddressAndKey) :
    (trieNode.object key last.globalContext.stateDb).newHashes.capacity =
      (trieNode.object key before.stateDb).newHashes.capacity :=
  run_table_capacity trieNode.lens.objectStore run key

variable (validation : Validation proposer.node follower.node library programs left right proposed
    block) (done : ∀ tx ∈ proposed.books.order, block.Finished tx)

include validation

theorem Validation.committed_syscalls (key : AddressAndKey) :
    ∀ delta ∈ deltasOn key proposed.books.committed, delta.fromSyscall = true := by
  obtain ⟨_, proposal⟩ := validation.proposal
  intro delta member
  rw [quiescent_committed proposer.node.view.toObjectStore proposal validation.quiescent,
    mem_deltas_on, mem_promised] at member
  obtain ⟨tx, listed, pushed⟩ := member
  exact pushes_from_syscall proposer.steady proposal (validation.noAssets tx listed) pushed

theorem Validation.pushed_lives :
    ∀ key ∈ block.pushedKeys, (∃ entry ∈ block.books.held, entry.2.1 = key) ∨
      ∃ item ∈ block.books.committed, item.1 = key := by
  obtain ⟨_, run⟩ := validation.run
  apply run_invariant (fun block : BlockExecution Tx follower.Database =>
    ∀ key ∈ block.pushedKeys, (∃ entry ∈ block.books.held, entry.2.1 = key) ∨
      ∃ item ∈ block.books.committed, item.1 = key) _ _ (run_between run)
  · rintro earlier move next lives ⟨⟨moves, ⟨owner, member, due⟩ | rfl, _⟩, reached, _⟩
    case inr => cases block_move_cases moves with | persisted => exact lives
    have there := validation.elsewhere reached
    have willing := there.willing
    cases block_move_cases moves with
    | @accepted tx ids target delta rest rewind after status phase applied =>
        intro key pushed
        rcases List.mem_cons.mp pushed with rfl | pushed
        · exact .inl ⟨_, List.mem_cons_self, rfl⟩
        · rcases lives key pushed with ⟨entry, held, same⟩ | committed
          · exact .inl ⟨entry, List.mem_cons_of_mem _ held, same⟩
          · exact .inr committed
    | rejected status phase applied =>
        cases due with
        | push _ _ => exact absurd applied (there.next_accepted willing member phase)
    | @committed position tx target rewind after found phase through =>
        intro key pushed
        rcases lives key pushed with ⟨entry, held, same⟩ | ⟨item, committed, same⟩
        · have parts := (erase_perm found).mem_iff.mpr held
          rcases List.mem_cons.mp parts with rfl | left
          · exact .inr ⟨_, Multiset.mem_cons_self _ _, same⟩
          · exact .inl ⟨entry, left, same⟩
        · exact .inr ⟨item, Multiset.mem_cons_of_mem committed, same⟩
    | destroyed found phase through =>
        cases due with
        | destroy _ aborting => exact absurd aborting (willing.phases owner member)
    | _ => exact lives
  · intro key impossible
    cases impossible

include done

/-- Nobody has given up, so a key without a committed delta has lost no slot. -/
theorem Validation.unlogged_vacant {key : AddressAndKey}
    (vacant : (follower.object key right.stateDb).Vacant) (unlogged : key ∉ block.modifiedKeys) :
    (follower.object key block.globalContext.stateDb).Vacant := by
  obtain ⟨_, run⟩ := validation.moved
  have slots : follower.lens.objectStore.usableSlots key block =
      (follower.object key right.stateDb).newHashes.freeSlots := validation.willing.slots key
  have idle : block.liveOn key = 0 := by
    have empty : block.books.held = [] := (validation.rests done).1
    rw [BlockExecution.liveOn, empty]
    have nothing : heldItems ticketItem ([] : List (Tx × AddressAndKey × DeltaRewind)) = 0 := rfl
    rw [nothing, zero_add]
    exact unlogged_untouched run unlogged
  unfold ObjectStore.usableSlots at slots
  rw [idle] at slots
  have here : (follower.object key block.globalContext.stateDb).newHashes.freeSlots =
      (follower.object key right.stateDb).newHashes.freeSlots := slots
  have capacity := follower.block_capacity run key
  rw [RevertableObject.Vacant, here, vacant, capacity]

theorem Validation.same_pending
    (agreed : ∀ tx ∈ proposed.books.order, ∀ other ∈ proposed.books.order,
      ∀ addr h otherHash, proposed.deploys tx addr = some h →
        proposed.deploys other addr = some otherHash → h = otherHash) :
    block.globalContext.contractDb.snapshot = proposed.globalContext.contractDb.snapshot ∧
      block.globalContext.contractDb.uncommittedContracts =
        proposed.globalContext.contractDb.uncommittedContracts := by
  obtain ⟨_, proposal⟩ := validation.proposal
  obtain ⟨_, run⟩ := validation.moved
  have here := run_contract_books validation.validatorRests.clear run
  have there := run_contract_books validation.proposerRests.clear proposal
  constructor
  · rw [here.frozen, there.frozen, validation.same.contracts]
  · have scripts : block.globalContext.contractDb.uncommittedContracts.newContracts =
        proposed.globalContext.contractDb.uncommittedContracts.newContracts := by
      apply SortedMap.find_injective
      intro h
      apply Option.ext
      intro contract
      exact validation.same_scripts done h contract
    have deployments : block.globalContext.contractDb.uncommittedContracts.newDeployments =
        proposed.globalContext.contractDb.uncommittedContracts.newDeployments := by
      apply SortedMap.find_injective
      intro addr
      symm
      apply deployments_alike there here validation.quiescent.2 (validation.rests done).2 _ _ agreed
      · exact fun tx => (validation.passed_all done).mem_iff.symm
      · intro tx listed addr
        exact congrArg (fun context : TransactionContext =>
          context.contractDbProxy.newDeployments.find addr) (validation.same_contexts done listed)
    cases made : block.globalContext.contractDb.uncommittedContracts
    cases other : proposed.globalContext.contractDb.uncommittedContracts
    rw [made, other] at scripts deployments
    simp only at scripts deployments
    rw [scripts, deployments]

end Executed

/-! ## The ends of a block -/

/-- `phase_finish_block` over the logged keys, on one thread. -/
def GlobalContext.phaseFinishBlock {Database : Type} (store : StateStore Database)
    (thread : Fin tlcacheSize) (timestamp : UInt32) (newKey : HashKey)
    (keys : List AddressAndKey) (globalContext : GlobalContext Database) :
    Except Fault (GlobalContext Database) := do
  let contractDb ← globalContext.contractDb.commit thread timestamp
  let stateDb ← store.commitModifications newKey keys globalContext.stateDb
  .ok { stateDb := stateDb, contractDb := contractDb }

def GlobalContext.phaseUndoBlock {Database : Type} (store : StateStore Database)
    (newKey : HashKey) (keys : List AddressAndKey) (globalContext : GlobalContext Database) :
    Except Fault (GlobalContext Database) := do
  let stateDb ← store.rewindModifications newKey keys globalContext.stateDb
  .ok { stateDb := stateDb, contractDb := globalContext.contractDb.rewind }

def FinishesBlock {Tx Database : Type} (store : StateStore Database)
    (last : BlockExecution Tx Database) (after : GlobalContext Database) : Prop :=
  ∃ thread timestamp newKey keys, keys.Perm last.modifiedKeys ∧
    last.globalContext.phaseFinishBlock store thread timestamp newKey keys = .ok after

def UndoesBlock {Tx Database : Type} (store : StateStore Database)
    (last : BlockExecution Tx Database) (after : GlobalContext Database) : Prop :=
  ∃ newKey keys, keys.Perm last.modifiedKeys ∧
    last.globalContext.phaseUndoBlock store newKey keys = .ok after

theorem phase_finish_ok_iff {Database : Type} {store : StateStore Database}
    {thread : Fin tlcacheSize} {timestamp : UInt32} {newKey : HashKey}
    {keys : List AddressAndKey} {globalContext after : GlobalContext Database} :
    globalContext.phaseFinishBlock store thread timestamp newKey keys = .ok after ↔
      globalContext.contractDb.commit thread timestamp = .ok after.contractDb ∧
      store.commitModifications newKey keys globalContext.stateDb = .ok after.stateDb := by
  constructor
  · intro finished
    obtain ⟨contractDb, contracts, rest⟩ := bind_ok_iff.mp finished
    obtain ⟨stateDb, modifications, same⟩ := bind_ok_iff.mp rest
    cases same
    exact ⟨contracts, modifications⟩
  · rintro ⟨contracts, modifications⟩
    exact bind_ok_iff.mpr ⟨_, contracts, bind_ok_iff.mpr ⟨_, modifications, rfl⟩⟩

theorem phase_undo_ok_iff {Database : Type} {store : StateStore Database} {newKey : HashKey}
    {keys : List AddressAndKey} {globalContext after : GlobalContext Database} :
    globalContext.phaseUndoBlock store newKey keys = .ok after ↔
      store.rewindModifications newKey keys globalContext.stateDb = .ok after.stateDb ∧
      after.contractDb = globalContext.contractDb.rewind := by
  constructor
  · intro undone
    obtain ⟨stateDb, modifications, same⟩ := bind_ok_iff.mp undone
    cases same
    exact ⟨modifications, rfl⟩
  · rintro ⟨modifications, contracts⟩
    refine bind_ok_iff.mpr ⟨_, modifications, ?_⟩
    rw [← contracts]

section Ends

variable {library : ContractLibrary} {Tx : Type} [DecidableEq Tx] {programs : Tx → Program}
  {Database : Type} {store : StateStore Database} {before after : GlobalContext Database}
  {moves : List (BlockMove Tx)} {last : BlockExecution Tx Database}

theorem finishes_ends
    (run : Run (MovesBlock cryptoShorthash library store programs) (.start before) moves last)
    (quiescent : last.Quiescent) (finishes : FinishesBlock store last after) :
    EndsBlock cryptoShorthash library Tx store before after := by
  obtain ⟨_, _, newKey, keys, logged, finished⟩ := finishes
  obtain ⟨contracts, returned⟩ := phase_finish_ok_iff.mp finished
  exact .finished run quiescent logged contracts returned

theorem undoes_ends
    (run : Run (MovesBlock cryptoShorthash library store programs) (.start before) moves last)
    (quiescent : last.Quiescent) (undoes : UndoesBlock store last after) :
    EndsBlock cryptoShorthash library Tx store before after := by
  obtain ⟨newKey, keys, logged, undone⟩ := undoes
  obtain ⟨returned, contracts⟩ := phase_undo_ok_iff.mp undone
  have ends := EndsBlock.undone run quiescent logged returned
  rw [← contracts] at ends
  exact ends

end Ends

/-! ## The next block -/

section Next

variable {library : ContractLibrary} {Tx : Type} [DecidableEq Tx] {programs : Tx → Program}
  {leftAfter : GlobalContext proposer.Database} {rightAfter : GlobalContext follower.Database}
  {proposed : BlockExecution Tx proposer.Database} {block : BlockExecution Tx follower.Database}

theorem InStep.validation (inStep : InStep proposer follower left right)
    (noAssets : ∀ tx ∈ proposed.books.order, (programs tx).NoAssets)
    (proposal : ∃ moves, Run (MovesBlock cryptoShorthash library proposer.store programs)
      (.start left) moves proposed)
    (quiescent : proposed.Quiescent)
    (run : ∃ moves, Run (MovesValidating cryptoShorthash library follower.store programs
      proposed.books.order) (.start right) moves block) :
    Validation proposer.node follower.node library programs left right proposed block :=
  { proposerRests := inStep.proposerRests
    validatorRests := inStep.followerRests
    same := inStep.same
    noAssets := noAssets
    proposal := proposal
    quiescent := quiescent
    run := run }

/-- A proposed block can end with the follower, too: nothing that only a transaction
which gave up has pushed stands behind a logged key. -/
theorem follower_finishes_iff (inStep : InStep proposer follower left right)
    (validation : Validation proposer.node follower.node library programs left right proposed
      block)
    (done : ∀ tx ∈ proposed.books.order, block.Finished tx)
    (agreed : ∀ tx ∈ proposed.books.order, ∀ other ∈ proposed.books.order,
      ∀ addr h otherHash, proposed.deploys tx addr = some h →
        proposed.deploys other addr = some otherHash → h = otherHash)
    (leftFinishes : FinishesBlock proposer.store proposed leftAfter) :
    (∃ after, FinishesBlock follower.store block after) ↔
      ∀ key ∈ proposed.modifiedKeys, proposer.node.values left key ≠ none ∨
        ∃ item ∈ proposed.books.committed, item.1 = key := by
  obtain ⟨_, run⟩ := validation.moved
  have rests := validation.rests done
  have entries (key : AddressAndKey) :
      follower.lens.trie block.globalContext.stateDb key ≠ none ↔
        proposer.node.values left key ≠ none ∨ ∃ item ∈ proposed.books.committed, item.1 = key := by
    rw [run_entries follower.lens run key, stored_entry_iff inStep.followerStored,
      ← follower.lens.value, inStep.values, ← validation.same_deltas done]
    apply or_congr Iff.rfl
    constructor
    · intro pushed
      rcases validation.pushed_lives key pushed with ⟨entry, held, _⟩ | committed
      · rw [rests.1] at held
        cases held
      · exact committed
    · rintro ⟨item, committed, rfl⟩
      exact (run_pushed_only run).committed item committed
  have logged (key : AddressAndKey) := validation.same_logs done key
  constructor
  · rintro ⟨after, _, _, newKey, keys, same, finished⟩ key listed
    have returned := (phase_finish_ok_iff.mp finished).2
    have ends := ends_return_iff follower.lens validation.validatorRests.rested run rests newKey
      (same.nodup_iff.mpr (run_logs_once run))
    have visited := same.mem_iff.mpr ((logged key).mpr listed)
    exact (entries key).mp (ends.1.mp ⟨_, returned⟩ key visited)
  · intro stored
    obtain ⟨frozen, pending⟩ := validation.same_pending done agreed
    obtain ⟨thread, timestamp, _, _, _, leftFinished⟩ := leftFinishes
    obtain ⟨contractDb, contracts, _⟩ := ContractDB.commit_alike frozen pending
      (phase_finish_ok_iff.mp leftFinished).1 thread timestamp
    have ends := ends_return_iff follower.lens validation.validatorRests.rested run rests 0
      (run_logs_once run)
    obtain ⟨after, returned⟩ := ends.1.mpr fun key listed =>
      (entries key).mpr (stored key ((logged key).mp listed))
    exact ⟨{ stateDb := after, contractDb := contractDb }, thread, timestamp, 0,
      block.modifiedKeys, List.Perm.refl _, phase_finish_ok_iff.mpr ⟨contracts, returned⟩⟩

variable (inStep : InStep proposer follower left right)
  (validation : Validation proposer.node follower.node library programs left right proposed block)
  (done : ∀ tx ∈ proposed.books.order, block.Finished tx)
  (leftFinishes : FinishesBlock proposer.store proposed leftAfter)
  (rightFinishes : FinishesBlock follower.store block rightAfter)

include inStep validation done leftFinishes rightFinishes

theorem finished_objects (key : AddressAndKey) :
    (proposer.object key leftAfter.stateDb).newHashes.capacity ≤
        (follower.object key rightAfter.stateDb).newHashes.capacity ∧
      (follower.object key rightAfter.stateDb).Vacant := by
  obtain ⟨_, proposal⟩ := validation.proposal
  obtain ⟨_, run⟩ := validation.moved
  obtain ⟨_, _, _, leftKeys, leftLogged, leftFinished⟩ := leftFinishes
  obtain ⟨_, _, _, rightKeys, rightLogged, rightFinished⟩ := rightFinishes
  obtain ⟨leftContracts, leftReturned⟩ := phase_finish_ok_iff.mp leftFinished
  obtain ⟨rightContracts, rightReturned⟩ := phase_finish_ok_iff.mp rightFinished
  have leftKept := (proposer.commit_keeps (leftLogged.nodup_iff.mpr (run_logs_once proposal))
    leftReturned).1
  have rightKept := (follower.commit_keeps (rightLogged.nodup_iff.mpr (run_logs_once run))
    rightReturned).1
  have there := quiescent_closed validation.proposerRests.rested proposal validation.quiescent key
  have here := quiescent_closed validation.validatorRests.rested run (validation.rests done) key
  have values : follower.node.store.getCommittedValue key right.stateDb =
      proposer.node.store.getCommittedValue key left.stateDb := congrFun inStep.values.symm key
  have ordered : (proposer.object key proposed.globalContext.stateDb).newHashes.capacity ≤
      (follower.object key block.globalContext.stateDb).newHashes.capacity := by
    rw [proposer.block_capacity proposal, follower.block_capacity run]
    exact inStep.capacities key
  have logged := validation.same_logs done key
  unfold TrieNode.object at ordered ⊢
  by_cases listed : key ∈ proposed.modifiedKeys
  · obtain ⟨leftChanged, leftRound, leftSame⟩ :=
      leftKept.visited key (leftLogged.mem_iff.mpr listed)
    obtain ⟨rightChanged, rightRound, rightSame⟩ :=
      rightKept.visited key (rightLogged.mem_iff.mpr (logged.mpr listed))
    rw [leftSame, rightSame]
    have settled := validation.same_round done key
    have leftSettled : (proposer.node.view.objects proposed.globalContext.stateDb
        key).commitRound = .ok leftChanged := leftRound
    have rightSettled : (follower.node.view.objects block.globalContext.stateDb
        key).commitRound = .ok rightChanged := rightRound
    rw [leftSettled, rightSettled] at settled
    constructor
    · apply kept_capacity (Except.ok.inj settled).symm
      rw [validation.same_deltas done, values] at here
      exact closed_capacity there here ordered leftRound rightRound
    · obtain ⟨_, opening, agreement, _, accounts⟩ := here
      obtain ⟨_, _, started⟩ := commit_round_start accounts rightSettled
      exact kept_vacant started.vacant
  · have unlisted : key ∉ block.modifiedKeys := logged.not.mpr listed
    rw [leftKept.left key (leftLogged.mem_iff.not.mpr listed),
      rightKept.left key (rightLogged.mem_iff.not.mpr unlisted)]
    constructor
    · apply kept_capacity _ ordered
      exact (closed_base there).trans (values.symm.trans (closed_base here).symm)
    · exact kept_vacant (validation.unlogged_vacant done (inStep.vacant key) unlisted)

theorem finished_in_step
    (agreed : ∀ tx ∈ proposed.books.order, ∀ other ∈ proposed.books.order,
      ∀ addr h otherHash, proposed.deploys tx addr = some h →
        proposed.deploys other addr = some otherHash → h = otherHash) :
    InStep proposer follower leftAfter rightAfter := by
  have objects := finished_objects inStep validation done leftFinishes rightFinishes
  obtain ⟨_, proposal⟩ := validation.proposal
  obtain ⟨_, run⟩ := validation.moved
  have leftEnds := finishes_ends proposal validation.quiescent leftFinishes
  have rightEnds := finishes_ends run (validation.rests done) rightFinishes
  obtain ⟨_, _, _, leftKeys, leftLogged, leftFinished⟩ := leftFinishes
  obtain ⟨_, _, _, rightKeys, rightLogged, rightFinished⟩ := rightFinishes
  obtain ⟨leftContracts, leftReturned⟩ := phase_finish_ok_iff.mp leftFinished
  obtain ⟨rightContracts, rightReturned⟩ := phase_finish_ok_iff.mp rightFinished
  obtain ⟨frozen, pending⟩ := validation.same_pending done agreed
  have contracts : leftAfter.contractDb.snapshot = rightAfter.contractDb.snapshot := by
    obtain ⟨again, returned, same⟩ :=
      ContractDB.commit_alike frozen pending leftContracts _ _
    rw [Except.ok.inj (rightContracts.symm.trans returned)]
    exact same.symm
  refine
    { proposerRests := chain_between_blocks inStep.proposerRests (.single leftEnds)
      followerRests := chain_between_blocks inStep.followerRests (.single rightEnds)
      proposerStored := (proposer.commit_keeps
        (leftLogged.nodup_iff.mpr (run_logs_once proposal)) leftReturned).2
      followerStored := (follower.commit_keeps
        (rightLogged.nodup_iff.mpr (run_logs_once run)) rightReturned).2
      values := ?_
      contracts := contracts
      noAssets := ?_
      capacities := fun key => (objects key).1
      vacant := fun key => (objects key).2 }
  · funext key
    exact (validation.same_values done leftLogged rightLogged leftReturned rightReturned key).symm
  · intro key object stored
    have settles := commit_settles validation.proposerRests.rested proposal validation.quiescent
      leftLogged leftReturned key
    have value : proposer.node.store.getCommittedValue key leftAfter.stateDb = some object := stored
    rcases settles with ⟨_, settled⟩ | ⟨_, keeps⟩
    · rw [value] at settled
      exact closed_round_no_asset
        (quiescent_closed validation.proposerRests.rested proposal validation.quiescent key)
        (inStep.noAssets key) (validation.committed_syscalls key) settled
    · exact inStep.noAssets key object (keeps.symm.trans value)

omit validation done leftFinishes rightFinishes

/-- A proposer that undoes a block of its own stays in step with the nodes that have not
seen the block. -/
theorem undone_in_step {moves : List (BlockMove Tx)}
    (run : Run (MovesBlock cryptoShorthash library proposer.store programs) (.start left) moves
      proposed) (quiescent : proposed.Quiescent)
    (undoes : UndoesBlock proposer.store proposed leftAfter) :
    InStep proposer follower leftAfter right := by
  have ends := undoes_ends run quiescent undoes
  obtain ⟨_, keys, logged, undone⟩ := undoes
  obtain ⟨returned, contracts⟩ := phase_undo_ok_iff.mp undone
  have kept := proposer.rewind_keeps (logged.nodup_iff.mpr (run_logs_once run)) returned
  have rested : Rested proposer.node.view left.stateDb := inStep.proposerRests.rested
  have rewound := rewind_rested rested run quiescent logged returned
  have values : proposer.node.values leftAfter = proposer.node.values left := funext rewound.2
  refine
    { proposerRests := chain_between_blocks inStep.proposerRests (.single ends)
      followerRests := inStep.followerRests
      proposerStored := kept.2
      followerStored := inStep.followerStored
      values := values.trans inStep.values
      contracts := ?_
      noAssets := ?_
      capacities := ?_
      vacant := inStep.vacant }
  · have frozen := (run_contract_books inStep.proposerRests.clear run).frozen
    have same : leftAfter.contractDb.snapshot = proposed.globalContext.contractDb.snapshot := by
      rw [contracts]
      rfl
    rw [same, frozen, inStep.contracts]
  · rw [values]
    exact inStep.noAssets
  · intro key
    have closed := quiescent_closed inStep.proposerRests.rested run quiescent key
    have settled : (proposer.object key proposed.globalContext.stateDb).getCommittedObject =
        (follower.object key right.stateDb).getCommittedObject := by
      have there := closed_base closed
      have here := trie_committed (follower.lens.trie right.stateDb) key
      have shown := congrFun inStep.values key
      exact there.trans (shown.trans ((follower.lens.value key _).trans here))
    have ordered : (proposer.object key proposed.globalContext.stateDb).newHashes.capacity ≤
        (follower.object key right.stateDb).newHashes.capacity := by
      rw [proposer.block_capacity run]
      exact inStep.capacities key
    unfold TrieNode.object at settled ordered ⊢
    rw [← stored_object_kept inStep.followerStored key]
    by_cases listed : key ∈ proposed.modifiedKeys
    · obtain ⟨changed, finished, same⟩ := kept.1.visited key (logged.mem_iff.mpr listed)
      cases finished
      rw [same]
      exact kept_capacity settled ordered
    · rw [kept.1.left key (logged.mem_iff.not.mpr listed)]
      exact kept_capacity settled ordered

end Next

end Scs
