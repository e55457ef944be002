import Scs.Sdk.ReplayCache
import Scs.StateDb.BlockStart

/-!
# A recorded transaction commits once

The replay cache of a contract refuses a hash that it holds, and forgets a hash
only when its transaction has expired.
-/

namespace Scs

set_option autoImplicit false

open Ledger Lockstep Runs TwoPhase

/-! ## What the end of a block leaves in the replay cache -/

section Settle

variable {cryptoShorthash : CryptoShorthash} {opening : Opening}
  {committed : Multiset StorageDelta} {agreement : Agreement} {object : RevertableObject}
  {currentBlockNumber : UInt64} {entry : HashSetEntry} {result : Option StorageObject}

theorem replay_delta_class {delta : StorageDelta} (replay : ReplayDelta currentBlockNumber delta) :
    delta.class? = some .hashSet := by
  cases replay <;> rfl

theorem replay_clear_threshold {delta : StorageDelta}
    (replay : ReplayDelta currentBlockNumber delta) :
    delta.clearThreshold ≤ currentBlockNumber.toNat := by
  cases replay with
  | inserts entry => exact Nat.zero_le _
  | raises amount => exact Nat.zero_le _
  | clears => exact Nat.le_refl _

theorem mem_opening_hashes (member : entry ∈ opening.hashes) :
    opening.requiredType = some .hashSet := by
  obtain ⟨base, supply⟩ := opening
  rcases base with _ | ⟨body, fee⟩
  · cases member
  · cases body with
    | hashSet set => rfl
    | _ => cases member

theorem mem_inserts (entry : HashSetEntry) (deltas : Multiset StorageDelta) :
    entry ∈ inserts deltas ↔ StorageDelta.hashSetInsert entry ∈ deltas := by
  unfold inserts
  rw [Multiset.mem_filterMap]
  constructor
  · rintro ⟨delta, member, made⟩
    cases delta <;> cases made
    exact member
  · intro member
    exact ⟨_, member, rfl⟩

theorem replay_settles_hash_set
    (accounts : Accounts cryptoShorthash opening 0 committed agreement object)
    (replay : ∀ delta ∈ committed, ReplayDelta currentBlockNumber delta)
    (there : entry ∈ opening.hashes ∨ entry ∈ inserts committed) :
    (agreement.value?.map StorageDeltaClass.type).or opening.requiredType = some .hashSet := by
  cases valued : agreement.value? with
  | some value =>
      obtain ⟨delta, member, classed⟩ := value_backed accounts valued
      rw [live_none] at member
      rw [replay_delta_class (replay delta member)] at classed
      cases classed
      rfl
  | none =>
      rcases there with stored | fresh
      · exact mem_opening_hashes stored
      · have agrees := accounts.agreed.value (.hashSetInsert entry)
        rw [live_none] at agrees
        have impossible := agrees ((mem_inserts entry committed).mp fresh) _ rfl
        rw [valued] at impossible
        cases impossible

/-- Clearing at the block number keeps every hash that expires later, so a recorded
transaction is found for as long as it may come again. -/
theorem settle_keeps_entry (kempt : Kempt opening.base)
    (accounts : Accounts cryptoShorthash opening 0 committed agreement object)
    (replay : ∀ delta ∈ committed, ReplayDelta currentBlockNumber delta)
    (unexpired : currentBlockNumber < entry.index)
    (there : entry ∈ opening.hashes ∨ entry ∈ inserts committed)
    (settled : settle opening agreement.value? committed = .ok result) :
    entry ∈ (Opening.onBase result).hashes := by
  have typed := replay_settles_hash_set accounts replay there
  have solvent := accounts.solvent
  rw [live_none] at solvent
  obtain ⟨start, made, rest⟩ := bind_ok_iff.mp settled
  cases start with
  | none =>
      obtain ⟨base, valued⟩ := agreed_object_none made
      rw [valued, Opening.requiredType, base] at typed
      cases typed
  | some agreed =>
      have kind := agreed_object_type made
      rw [typed] at kind
      have kept : StorageDelta.deleteLast ∉ committed := by
        intro deleted
        cases replay _ deleted
      simp only [if_neg kept] at rest
      obtain ⟨final, finished, same⟩ := bind_ok_iff.mp rest
      cases same
      obtain ⟨fee, opened⟩ := agreed_object_start kempt made
      obtain ⟨body, escrowedFee⟩ := agreed
      cases body with
      | hashSet set =>
          obtain ⟨hashes, limit⟩ := opened set rfl
          have short := entries_short kempt.toTidy solvent
          rw [← hashes] at short
          obtain ⟨left, cleared, same⟩ := bind_ok_iff.mp finished
          rw [settle_hash_set_eq set short] at cleared
          cases cleared
          cases same
          have merged : entry ∈ sortedHashes (↑set.hashes + inserts committed) := by
            rw [sortedHashes, Multiset.mem_sort, Multiset.mem_add, Multiset.mem_coe, hashes]
            exact there
          have highest : (committed.map StorageDelta.clearThreshold).sup ≤
              currentBlockNumber.toNat := by
            apply Multiset.sup_le.mpr
            intro threshold member
            obtain ⟨delta, inside, rfl⟩ := Multiset.mem_map.mp member
            exact replay_clear_threshold (replay delta inside)
          simp only [Opening.hashes, Opening.onBase]
          split_ifs
          · apply List.mem_filter.mpr
            refine ⟨merged, ?_⟩
            rw [decide_eq_true_eq, gt_iff_lt, UInt64.lt_iff_toNat_lt, UInt64.toNat_ofNat']
            have later := UInt64.lt_iff_toNat_lt.mp unexpired
            exact ((Nat.mod_le _ _).trans highest).trans_lt later
          · exact merged
      | rawMemoryStorage raw => cases kind
      | nonnegativeInt64 value => cases kind
      | unconstrainedInt64 value => cases kind
      | asset stored => cases kind

end Settle

/-! ## The deltas of one key -/

section Deltas

variable {key : AddressAndKey} {delta : StorageDelta} {Tx : Type*}

/-- Each of some listed transactions inserts an entry, so it is inserted as often. -/
theorem inserts_counted {pushes : Tx → List (AddressAndKey × StorageDelta)} {order : List Tx}
    {chosen : Tx → Prop} [DecidablePred chosen] {entry : HashSetEntry}
    (each : ∀ tx ∈ order, chosen tx → (key, StorageDelta.hashSetInsert entry) ∈ pushes tx) :
    order.countP (fun tx => chosen tx) ≤
      (inserts (deltasOn key (promised pushes order))).count entry := by
  induction order with
  | nil => exact Nat.zero_le _
  | cons first rest induction =>
      have split : inserts (deltasOn key (promised pushes (first :: rest))) =
          inserts (deltasOn key (pushes first)) +
            inserts (deltasOn key (promised pushes rest)) := by
        have sum : promised pushes (first :: rest) =
            (pushes first : Multiset _) + promised pushes rest := rfl
        rw [sum, deltas_on_add, inserts, Multiset.filterMap_add]
        rfl
      have later := induction fun tx member => each tx (List.mem_cons_of_mem first member)
      rw [split, Multiset.count_add, List.countP_cons]
      split_ifs with picked
      · have own : entry ∈ inserts (deltasOn key (pushes first : Multiset _)) := by
          rw [mem_inserts, mem_deltas_on]
          exact each first List.mem_cons_self (of_decide_eq_true picked)
        have positive := Multiset.count_pos.mpr own
        omega
      · omega

end Deltas

/-! ## One block -/

/-- A block of transactions under one block number, with no rewind open at its end. -/
structure NumberedBlock (cryptoShorthash : CryptoShorthash) (library : ContractLibrary)
    (Transaction Tx : Type) {Database : Type} [DecidableEq Tx] (store : StateStore Database)
    (before : GlobalContext Database) where
  blockNumber : UInt64
  transactions : Tx → Transaction
  programs : Tx → Program
  moves : List (BlockMove Tx)
  last : BlockExecution Tx Database
  run : Run (MovesBlock cryptoShorthash library store programs) (.start before) moves last
  quiescent : last.Quiescent

section Block

variable {cryptoShorthash : CryptoShorthash} {library : ContractLibrary}
  {Transaction Tx Database : Type} [DecidableEq Tx] {store : StateStore Database}
  {before : GlobalContext Database}
  {view : SettlingStore cryptoShorthash store} {key : AddressAndKey}
  {hashXdr : Transaction → Hash} {expiration : Hash → UInt64} {transaction : Transaction}

namespace NumberedBlock

variable (block : NumberedBlock cryptoShorthash library Transaction Tx store before)

def KeyGuarded (key : AddressAndKey) (hashXdr : Transaction → Hash) : Prop :=
  ∀ tx, OnlyReplayCache key (hashXdr (block.transactions tx)) block.blockNumber
    (block.programs tx)

/-- Wherever the transaction has committed, it has recorded itself. -/
def RecordsItself (key : AddressAndKey) (hashXdr : Transaction → Hash)
    (expiration : Hash → UInt64) (transaction : Transaction) : Prop :=
  ∀ tx ∈ block.last.books.order, block.transactions tx = transaction →
    CallsRecordSelfReplay key (hashXdr transaction) block.blockNumber
      (expiration (hashXdr transaction)) (block.programs tx) (block.last.contexts tx)

def committed : List Transaction := block.last.books.order.map block.transactions

def deltas (key : AddressAndKey) : Multiset StorageDelta := deltasOn key block.last.books.committed

variable {block}

theorem contexts_replay (steady : SteadyStore store) (guarded : block.KeyGuarded key hashXdr)
    (tx : Tx) : ∃ later, ReplayContext (fun key => store.getCommittedValue key before.stateDb) key
      (hashXdr (block.transactions tx)) block.blockNumber later (block.programs tx)
      (block.last.contexts tx) := by
  obtain ⟨later, turns, started⟩ := guarded tx
  refine ⟨later, ?_⟩
  apply context_invariant steady block.run tx
  · exact replay_context_start started
  · exact fun context => advance_replay_context turns

theorem deltas_promised (view : ObjectStore cryptoShorthash store) :
    block.deltas key = deltasOn key (promised block.last.pushes block.last.books.order) := by
  rw [deltas, quiescent_committed view block.run block.quiescent]

theorem pushes_listed {tx : Tx} (listed : tx ∈ block.last.books.order) :
    block.last.pushes tx = (block.last.contexts tx).storageProxy.deltas :=
  pushes_returned (order_returned block.run tx listed)

theorem deltas_replay (view : ObjectStore cryptoShorthash store) (steady : SteadyStore store)
    (guarded : block.KeyGuarded key hashXdr) :
    ∀ delta ∈ block.deltas key, ReplayDelta block.blockNumber delta := by
  intro delta member
  rw [deltas_promised view, mem_deltas_on, mem_promised] at member
  obtain ⟨tx, listed, pushed⟩ := member
  rw [pushes_listed listed, StorageProxy.mem_deltas] at pushed
  obtain ⟨applicator, cached, pushes⟩ := pushed
  obtain ⟨later, context⟩ := contexts_replay steady guarded tx
  have shown := context.view
  rw [StorageProxy.localOf, cached] at shown
  exact get_deltas_replay shown delta pushes

theorem recorded_pushed (steady : SteadyStore store) (guarded : block.KeyGuarded key hashXdr)
    (records : block.RecordsItself key hashXdr expiration transaction) {tx : Tx}
    (listed : tx ∈ block.last.books.order) (same : block.transactions tx = transaction) :
    block.blockNumber ≤ expiration (hashXdr transaction) ∧
      (key, StorageDelta.hashSetInsert
        { hash := hashXdr transaction, index := expiration (hashXdr transaction) }) ∈
          block.last.pushes tx := by
  obtain ⟨later, context⟩ := contexts_replay steady guarded tx
  have calls := records tx listed same
  rw [same] at context
  obtain ⟨unexpired, inserted⟩ :=
    recorded_inserted context (order_returned block.run tx listed) calls
  refine ⟨unexpired, ?_⟩
  rw [pushes_listed listed, StorageProxy.mem_deltas]
  have shown := context.view
  rw [StorageProxy.localOf] at inserted shown
  cases cached : (block.last.contexts tx).storageProxy.cache.find key with
  | none =>
      rw [cached] at inserted
      cases inserted
  | some applicator =>
      rw [cached] at inserted shown
      exact ⟨applicator, rfl, new_hashes_pushed shown _ inserted⟩

theorem commits_counted [DecidableEq Transaction] (view : ObjectStore cryptoShorthash store)
    (steady : SteadyStore store) (guarded : block.KeyGuarded key hashXdr)
    (records : block.RecordsItself key hashXdr expiration transaction) :
    block.committed.count transaction ≤ (inserts (block.deltas key)).count
      { hash := hashXdr transaction, index := expiration (hashXdr transaction) } := by
  have chosen : block.committed.count transaction =
      block.last.books.order.countP fun tx => block.transactions tx = transaction := by
    rw [committed, List.count, List.countP_map]
    apply List.countP_congr
    intro tx _
    simp only [Function.comp_apply, beq_iff_eq, decide_eq_true_eq]
  rw [chosen, deltas_promised view]
  exact inserts_counted fun tx listed same => (recorded_pushed steady guarded records listed same).2

theorem committed_unexpired (steady : SteadyStore store)
    (guarded : block.KeyGuarded key hashXdr)
    (records : block.RecordsItself key hashXdr expiration transaction)
    (commits : transaction ∈ block.committed) :
    block.blockNumber ≤ expiration (hashXdr transaction) := by
  obtain ⟨tx, listed, same⟩ := List.mem_map.mp commits
  exact (recorded_pushed steady guarded records listed same).1

theorem closed_solvent {base : Option StorageObject} {committed : Multiset StorageDelta}
    {object : RevertableObject} (closed : Closed cryptoShorthash base committed object) :
    (∀ entry ∈ inserts committed, entry ∉ (Opening.onBase base).hashes) ∧
      (inserts committed).Nodup := by
  obtain ⟨_, opening, agreement, rfl, accounts⟩ := closed
  have solvent := accounts.solvent
  rw [live_none] at solvent
  exact ⟨solvent.unseen, solvent.distinct⟩

section Finished

variable {newKey : HashKey} {keys : List AddressAndKey} {after : Database} {entry : HashSetEntry}

/-- A committed block forgets no hash that expires after it. -/
theorem finished_keeps_entry (rested : Rested view before.stateDb) (steady : SteadyStore store)
    (guarded : block.KeyGuarded key hashXdr) (logged : keys.Perm block.last.modifiedKeys)
    (returned : store.commitModifications newKey keys block.last.globalContext.stateDb = .ok after)
    (unexpired : block.blockNumber < entry.index)
    (there : entry ∈ (Opening.onBase (store.getCommittedValue key before.stateDb)).hashes ∨
      entry ∈ inserts (block.deltas key)) :
    entry ∈ (Opening.onBase (store.getCommittedValue key after)).hashes := by
  have replay := deltas_replay view.toObjectStore steady guarded
  have closed := quiescent_closed rested block.run block.quiescent key
  rcases commit_settles rested block.run block.quiescent logged returned key with
    ⟨_, settled⟩ | ⟨unlogged, same⟩
  · obtain ⟨kempt, opening, agreement, base, accounts⟩ := closed
    rw [commit_round_settles accounts] at settled
    rw [← base] at kempt there
    exact settle_keeps_entry kempt accounts replay unexpired there settled
  · rw [same]
    rcases there with stored | fresh
    · exact stored
    · rw [deltas, unlogged_untouched block.run unlogged] at fresh
      exact absurd fresh (Multiset.notMem_zero entry)

end Finished

end NumberedBlock

/-! ## Chains of numbered blocks -/

/-- A transaction has committed at most once, and if it has, it has expired or
the replay cache holds its hash. -/
structure Remembered (value : Option StorageObject) (lastNumber : Option UInt64)
    (entry : HashSetEntry) (commits : ℕ) : Prop where
  once : commits ≤ 1
  held : 0 < commits → (∃ number, lastNumber = some number ∧ entry.index ≤ number) ∨
    entry ∈ (Opening.onBase value).hashes

theorem remembered_finished [DecidableEq Transaction]
    {block : NumberedBlock cryptoShorthash library Transaction Tx store before}
    {newKey : HashKey} {keys : List AddressAndKey} {after : Database}
    {lastNumber : Option UInt64} {commits : ℕ}
    (rested : Rested view before.stateDb) (steady : SteadyStore store)
    (remembered : Remembered (store.getCommittedValue key before.stateDb) lastNumber
      { hash := hashXdr transaction, index := expiration (hashXdr transaction) } commits)
    (rising : ∀ number, lastNumber = some number → number < block.blockNumber)
    (guarded : block.KeyGuarded key hashXdr)
    (records : block.RecordsItself key hashXdr expiration transaction)
    (logged : keys.Perm block.last.modifiedKeys)
    (returned : store.commitModifications newKey keys block.last.globalContext.stateDb =
      .ok after) :
    Remembered (store.getCommittedValue key after) (some block.blockNumber)
      { hash := hashXdr transaction, index := expiration (hashXdr transaction) }
      (commits + block.committed.count transaction) := by
  have closed := quiescent_closed rested block.run block.quiescent key
  obtain ⟨unseen, distinct⟩ := NumberedBlock.closed_solvent closed
  have counted := NumberedBlock.commits_counted view.toObjectStore steady guarded records
  have single := (Multiset.nodup_iff_count_le_one.mp distinct)
    { hash := hashXdr transaction, index := expiration (hashXdr transaction) }
  have inserted (commits : 0 < block.committed.count transaction) :
      { hash := hashXdr transaction, index := expiration (hashXdr transaction) } ∈
        inserts (block.deltas key) := Multiset.count_pos.mp (commits.trans_le counted)
  -- A transaction that has committed before is refused: it has expired or is still held.
  have refused (before : 0 < commits) : block.committed.count transaction = 0 := by
    by_contra again
    have again := Nat.pos_of_ne_zero again
    rcases remembered.held before with ⟨number, last, expired⟩ | held
    · have unexpired := NumberedBlock.committed_unexpired steady guarded records
        (List.count_pos_iff.mp again)
      exact UInt64.not_le.mpr (UInt64.lt_of_le_of_lt expired (rising number last)) unexpired
    · exact unseen _ (inserted again) held
  constructor
  · rcases Nat.eq_zero_or_pos commits with none | before
    · rw [none, zero_add]
      exact counted.trans single
    · rw [refused before]
      exact remembered.once
  · intro some
    by_cases unexpired : block.blockNumber < expiration (hashXdr transaction)
    · right
      apply NumberedBlock.finished_keeps_entry rested steady guarded logged returned unexpired
      rcases Nat.eq_zero_or_pos commits with none | before
      · rw [none, zero_add] at some
        exact .inr (inserted some)
      · rcases remembered.held before with ⟨number, last, expired⟩ | held
        · have passed := UInt64.lt_of_le_of_lt expired (rising number last)
          exact absurd (UInt64.lt_trans passed unexpired) (UInt64.lt_irrefl _)
        · exact .inl held
    · exact .inl ⟨block.blockNumber, rfl, UInt64.not_lt.mp unexpired⟩

theorem remembered_undone {value : Option StorageObject} {lastNumber : Option UInt64}
    {entry : HashSetEntry} {commits : ℕ} {blockNumber : UInt64}
    (remembered : Remembered value lastNumber entry commits)
    (rising : ∀ number, lastNumber = some number → number < blockNumber) :
    Remembered value (some blockNumber) entry commits := by
  refine ⟨remembered.once, fun commits => ?_⟩
  rcases remembered.held commits with ⟨number, last, expired⟩ | held
  · exact .inl ⟨blockNumber, rfl, UInt64.le_trans expired (UInt64.le_of_lt (rising number last))⟩
  · exact .inr held

/-- Blocks with rising numbers, committed or undone. The list has the transactions
that have committed. -/
inductive NumberedChain (cryptoShorthash : CryptoShorthash) (library : ContractLibrary)
    {Transaction : Type} (Tx : Type) {Database : Type} [DecidableEq Tx]
    (store : StateStore Database) (key : AddressAndKey) (hashXdr : Transaction → Hash)
    (expiration : Hash → UInt64) (transaction : Transaction) (start : GlobalContext Database) :
    Option UInt64 → List Transaction → GlobalContext Database → Prop
  | start : NumberedChain cryptoShorthash library Tx store key hashXdr expiration transaction start
      none [] start
  | finished {lastNumber : Option UInt64} {committed : List Transaction}
      {before : GlobalContext Database} {newKey : HashKey} {keys : List AddressAndKey}
      {stateDb : Database} {contractDb : ContractDB} {thread : Fin tlcacheSize}
      (earlier : NumberedChain cryptoShorthash library Tx store key hashXdr expiration transaction
        start lastNumber committed before)
      (block : NumberedBlock cryptoShorthash library Transaction Tx store before)
      (rising : ∀ number, lastNumber = some number → number < block.blockNumber)
      (guarded : block.KeyGuarded key hashXdr)
      (records : block.RecordsItself key hashXdr expiration transaction)
      (logged : keys.Perm block.last.modifiedKeys)
      (contracts : block.last.globalContext.contractDb.commit thread block.blockNumber.toUInt32 =
        .ok contractDb)
      (modifications : store.commitModifications newKey keys block.last.globalContext.stateDb =
        .ok stateDb) :
      NumberedChain cryptoShorthash library Tx store key hashXdr expiration transaction start
        (some block.blockNumber) (committed ++ block.committed)
        { stateDb := stateDb, contractDb := contractDb }
  | undone {lastNumber : Option UInt64} {committed : List Transaction}
      {before : GlobalContext Database} {newKey : HashKey} {keys : List AddressAndKey}
      {stateDb : Database}
      (earlier : NumberedChain cryptoShorthash library Tx store key hashXdr expiration transaction
        start lastNumber committed before)
      (block : NumberedBlock cryptoShorthash library Transaction Tx store before)
      (rising : ∀ number, lastNumber = some number → number < block.blockNumber)
      (logged : keys.Perm block.last.modifiedKeys)
      (modifications : store.rewindModifications newKey keys block.last.globalContext.stateDb =
        .ok stateDb) :
      NumberedChain cryptoShorthash library Tx store key hashXdr expiration transaction start
        (some block.blockNumber) committed
        { stateDb := stateDb, contractDb := block.last.globalContext.contractDb.rewind }

theorem chain_remembers [DecidableEq Transaction] {start : GlobalContext Database}
    {lastNumber : Option UInt64} {committed : List Transaction} (steady : SteadyStore store)
    (rested : Rested view start.stateDb)
    (chain : NumberedChain cryptoShorthash library Tx store key hashXdr expiration transaction
      start lastNumber committed before) :
    Rested view before.stateDb ∧
      Remembered (store.getCommittedValue key before.stateDb) lastNumber
        { hash := hashXdr transaction, index := expiration (hashXdr transaction) }
        (committed.count transaction) := by
  induction chain with
  | start => exact ⟨rested, Nat.zero_le _, fun impossible => absurd impossible (Nat.lt_irrefl _)⟩
  | finished earlier block rising guarded records logged contracts modifications induction =>
      obtain ⟨rested, remembered⟩ := induction
      refine ⟨commit_rested rested block.run block.quiescent logged modifications, ?_⟩
      rw [List.count_append]
      exact remembered_finished rested steady remembered rising guarded records logged modifications
  | undone earlier block rising logged modifications induction =>
      obtain ⟨rested, remembered⟩ := induction
      obtain ⟨again, values⟩ :=
        rewind_rested rested block.run block.quiescent logged modifications
      refine ⟨again, ?_⟩
      rw [values key]
      exact remembered_undone remembered rising

/-- After any chain of blocks, a transaction that records itself with an expiration
time of its own hash commits at most once in any further blocks of rising numbers
that leave the key to the replay cache. -/
def ReplayProtected (cryptoShorthash : CryptoShorthash) (library : ContractLibrary)
    (Transaction Tx : Type) {Database : Type} [DecidableEq Transaction] [DecidableEq Tx]
    (store : StateStore Database) (genesis : GlobalContext Database) : Prop :=
  ∀ start, Relation.ReflTransGen (EndsBlock cryptoShorthash library Tx store) genesis start →
    ∀ (key : AddressAndKey) (hashXdr : Transaction → Hash) (expiration : Hash → UInt64)
      (transaction : Transaction) (lastNumber : Option UInt64) (committed : List Transaction)
      (last : GlobalContext Database),
      NumberedChain cryptoShorthash library Tx store key hashXdr expiration transaction start
        lastNumber committed last →
      committed.count transaction ≤ 1

theorem replay_protected [DecidableEq Transaction] {genesis : GlobalContext Database}
    (view : SettlingStore cryptoShorthash store) (steady : SteadyStore store)
    (rested : Rested view genesis.stateDb) :
    ReplayProtected cryptoShorthash library Transaction Tx store genesis := by
  intro start earlier key hashXdr expiration transaction lastNumber committed last chain
  exact (chain_remembers steady (chain_rested rested earlier) chain).2.once

end Block

/-- In every database that starts empty, a transaction that records itself commits
at most once. -/
theorem recorded_commits_once (cryptoShorthash : CryptoShorthash) (keyedShorthash : KeyedShorthash)
    (library : ContractLibrary) (Transaction Tx : Type) [DecidableEq Transaction] [DecidableEq Tx]
    (newKey : HashKey) (contractDb : ContractDB) (currentTimestamp : UInt32) :
    ReplayProtected cryptoShorthash library Transaction Tx
        (StateDB.store cryptoShorthash keyedShorthash)
        { stateDb := .ofCommitted newKey fun _ => none, contractDb := contractDb } ∧
      ReplayProtected cryptoShorthash library Transaction Tx (StateDBv2.store cryptoShorthash)
        { stateDb := { stateDb := fun _ => none }, contractDb := contractDb } ∧
      ReplayProtected cryptoShorthash library Transaction Tx
        (GroundhogPersistentStateDB.store cryptoShorthash)
        { stateDb := { currentTimestamp := currentTimestamp, stateDb := fun _ => none }
          contractDb := contractDb } := by
  refine ⟨?_, ?_, ?_⟩
  · apply replay_protected (StateDB.settlingStore cryptoShorthash keyedShorthash) state_db_steady
    apply rested_empty (cache_apart_empty newKey rfl)
    intro key
    rfl
  · apply replay_protected (StateDBv2.trieStore cryptoShorthash).settlingStore state_db_v2_steady
    apply rested_empty trivial
    intro key
    rfl
  · apply replay_protected (GroundhogPersistentStateDB.trieStore cryptoShorthash).settlingStore
      groundhog_steady
    apply rested_empty trivial
    intro key
    rfl

/-! ## A transaction that comes twice -/

def recordOnly (currentBlockNumber : UInt64) : Unit → Program := fun _ =>
  recordSelfReplay 7 5 currentBlockNumber 9 fun _ => .returns

def recordBlock (currentBlockNumber : UInt64) (moves : List (BlockMove Unit))
    (before : GlobalContext StateDBv2) :
    Option (BlockExecution Unit StateDBv2 × GlobalContext StateDBv2) :=
  BlockExecution.finishAll (fun _ => 0) noContracts (StateDBv2.store fun _ => 0)
    (recordOnly currentBlockNumber) 0 firstThread currentBlockNumber.toUInt32 moves before

theorem record_only_guarded (currentBlockNumber : UInt64) (tx : Unit) :
    OnlyReplayCache 7 5 currentBlockNumber (recordOnly currentBlockNumber tx) := by
  refine ⟨fun program => program = recordOnly currentBlockNumber tx ∨
    program = fun _ => .returns, ?_, .inl rfl⟩
  rintro program (rfl | rfl)
  · exact .records 9 (.inr rfl)
  · exact .ends fun next impossible => by cases impossible

theorem record_block_chain {currentBlockNumber : UInt64} {moves : List (BlockMove Unit)}
    {start before after : GlobalContext StateDBv2} {last : BlockExecution Unit StateDBv2}
    {lastNumber : Option UInt64} {committed : List Unit}
    (earlier : NumberedChain (fun _ => 0) noContracts Unit (StateDBv2.store fun _ => 0) 7
      (fun _ => 5) (fun _ => 9) () start lastNumber committed before)
    (rising : ∀ number, lastNumber = some number → number < currentBlockNumber)
    (ended : recordBlock currentBlockNumber moves before = some (last, after)) :
    NumberedChain (fun _ => 0) noContracts Unit (StateDBv2.store fun _ => 0) 7
      (fun _ => 5) (fun _ => 9) () start (some currentBlockNumber)
      (committed ++ last.books.order) after := by
  obtain ⟨run, quiescent, contracts, modifications⟩ := finish_all_ends ended
  let numbered : NumberedBlock (fun _ => 0) noContracts Unit Unit (StateDBv2.store fun _ => 0)
      before :=
    { blockNumber := currentBlockNumber
      transactions := id
      programs := recordOnly currentBlockNumber
      moves := moves
      last := last
      run := run
      quiescent := quiescent }
  have same : numbered.committed = last.books.order := List.map_id _
  rw [← same]
  apply NumberedChain.finished earlier numbered rising
  · exact record_only_guarded currentBlockNumber
  · intro tx listed _
    exact ⟨[], _, List.nil_prefix, rfl⟩
  · exact List.Perm.refl last.modifiedKeys
  · exact contracts
  · exact modifications

theorem recorded_commits_once_again : ∃ last,
    NumberedChain (fun _ => 0) noContracts Unit (StateDBv2.store fun _ => 0) 7 (fun _ => 5)
      (fun _ => 9) () { stateDb := { stateDb := fun _ => none }, contractDb := .empty } (some 2)
      [()] last ∧
    [()].count () ≤ 1 := by
  have twice : ((recordBlock 1
      [.call (), .call (), .call (), .push () .first, .push () .first, .pass (), .commit 0,
        .commit 0] { stateDb := { stateDb := fun _ => none }, contractDb := .empty }).bind
      fun first => (recordBlock 2 [.call ()] first.2).map
        fun second => (first.1.books.order, second.1.books.order)) = some ([()], []) := by
    decide +kernel
  obtain ⟨⟨first, middle⟩, one, rest⟩ := Option.bind_eq_some_iff.mp twice
  obtain ⟨⟨second, last⟩, two, orders⟩ := Option.map_eq_some_iff.mp rest
  obtain ⟨firstOrder, secondOrder⟩ := Prod.mk.inj orders
  have chain := record_block_chain (record_block_chain .start (fun _ impossible => by
    cases impossible) one) (fun number same => by cases same; decide) two
  rw [firstOrder, secondOrder] at chain
  exact ⟨last, chain, (recorded_commits_once (fun _ => 0) (fun _ _ => 0) noContracts Unit Unit 0
    .empty 0).2.1 _ .refl 7 (fun _ => 5) (fun _ => 9) () _ _ last chain⟩

end Scs
