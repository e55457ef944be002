import Scs.StateDb.BlockStart
import Scs.TransactionContext.SnapshotReads

/-!
# Where blocks meet, for the databases that keep new keys in the trie

`commit_modifications` and `rewind_modifications` expect an entry behind every
logged key. A transaction logs every key it has read, and a read makes no entry.
-/

namespace Scs

set_option autoImplicit false

open Ledger Lockstep Runs Visits

/-! ## The entries of a trie -/

section Entries

variable {cryptoShorthash : CryptoShorthash} {trie after : StateTrie} {key : AddressAndKey}

/-- At the start of a block a trie has entries for committed keys only, as
`hash_and_normalize` has dropped the others. -/
def StateTrie.Stored (trie : StateTrie) : Prop :=
  ∀ key object, trie key = some object → object.getCommittedObject ≠ none

theorem stored_entry_iff (stored : trie.Stored) (key : AddressAndKey) :
    trie key ≠ none ↔ trie.getCommittedValue key ≠ none := by
  unfold StateTrie.getCommittedValue
  cases entry : trie key with
  | none => exact ⟨fun absent => absurd rfl absent, fun absent => absurd rfl absent⟩
  | some object => exact ⟨fun _ => stored key object entry, fun _ => Option.some_ne_none _⟩

theorem normalize_stored (trie : StateTrie) : trie.normalize.Stored := by
  intro key object entry
  obtain ⟨_, committed⟩ := Option.filter_eq_some_iff.mp entry
  exact Option.isSome_iff_ne_none.mp committed

theorem trie_push_entries {ids : CallIds} {delta : StorageDelta} {answer : Option DeltaRewind}
    (applied : trie.tryApplyDelta cryptoShorthash ids key delta = .ok (answer, after))
    (other : AddressAndKey) : after other ≠ none ↔ other = key ∨ trie other ≠ none := by
  unfold StateTrie.tryApplyDelta at applied
  simp only at applied
  cases entry : trie.insertEntry key key with
  | none =>
      rw [entry] at applied
      cases applied
  | some object =>
      rw [entry] at applied
      obtain ⟨⟨_, changed⟩, _, same⟩ := bind_ok_iff.mp applied
      cases same
      by_cases here : other = key
      · subst here
        rw [Function.update_self]
        exact ⟨fun _ => .inl rfl, fun _ => Option.some_ne_none changed⟩
      · rw [Function.update_of_ne here, or_iff_right here]
        unfold StateTrie.insertEntry
        cases trie key with
        | some stored => exact Iff.rfl
        | none =>
            simp only [Function.update_of_ne here]

theorem trie_through_entries {call : RevertableObject → Except Fault RevertableObject}
    (through : trie.throughRewind key call = .ok after) (other : AddressAndKey) :
    after other ≠ none ↔ trie other ≠ none := by
  unfold StateTrie.throughRewind at through
  cases entry : trie key with
  | none =>
      rw [entry] at through
      cases through
  | some object =>
      rw [entry] at through
      obtain ⟨changed, _, same⟩ := bind_ok_iff.mp through
      cases same
      by_cases here : other = key
      · subst here
        rw [Function.update_self, entry]
        exact ⟨fun _ => Option.some_ne_none object, fun _ => Option.some_ne_none changed⟩
      · rw [Function.update_of_ne here]

end Entries

/-! ## The entries of a trie within a block -/

section Block

variable {cryptoShorthash : CryptoShorthash} {library : ContractLibrary} {Tx : Type*}
  {Database : Type} [DecidableEq Tx] {store : StateStore Database} {programs : Tx → Program}
  {globalContext : GlobalContext Database} {moves : List (BlockMove Tx)}
  {block : BlockExecution Tx Database} {keys : List AddressAndKey}

/-- A key has an entry from the start of the block or from its first delta on. No move takes
an entry away before the block ends. -/
theorem run_entries (lens : TrieStore cryptoShorthash store)
    (run : Run (MovesBlock cryptoShorthash library store programs) (.start globalContext) moves
      block) (key : AddressAndKey) :
    lens.trie block.globalContext.stateDb key ≠ none ↔
      lens.trie globalContext.stateDb key ≠ none ∨ key ∈ block.pushedKeys := by
  apply run_invariant (fun block : BlockExecution Tx Database =>
    lens.trie block.globalContext.stateDb key ≠ none ↔
      lens.trie globalContext.stateDb key ≠ none ∨ key ∈ block.pushedKeys) _ _ run
  · intro block move next entries moves
    cases block_move_cases moves with
    | accepted status phase applied =>
        simp only [BlockExecution.withPush, BlockExecution.withStateDb]
        rw [trie_push_entries (lens.push applied), entries, List.mem_cons]
        exact or_left_comm
    | rejected status phase applied =>
        simp only [BlockExecution.withPush, BlockExecution.withStateDb]
        rw [trie_push_entries (lens.push applied), entries, List.mem_cons]
        exact or_left_comm
    | committed found phase through =>
        simp only [BlockExecution.withStateDb]
        rw [trie_through_entries (lens.through through)]
        exact entries
    | destroyed found phase through =>
        simp only [BlockExecution.withStateDb]
        rw [trie_through_entries (lens.through through)]
        exact entries
    | _ => exact entries
  · exact (or_iff_left List.not_mem_nil).symm

end Block

/-! ## Chains of blocks -/

section Chain

variable {cryptoShorthash : CryptoShorthash} {library : ContractLibrary} {Tx Database : Type}
  [DecidableEq Tx] {store : StateStore Database} {genesis before after : GlobalContext Database}

theorem chain_stored (lens : TrieStore cryptoShorthash store)
    (empty : ∀ key, lens.trie genesis.stateDb key = none)
    (chain : Relation.ReflTransGen (EndsBlock cryptoShorthash library Tx store) genesis before) :
    (lens.trie before.stateDb).Stored := by
  cases chain with
  | refl =>
      intro key object entry
      rw [empty key] at entry
      cases entry
  | tail _ ends =>
      cases ends with
      | finished run quiescent logged contracts modifications =>
          obtain ⟨updated, _, same⟩ := bind_ok_iff.mp (map_ok (lens.commit _ _ _) modifications)
          rw [← Except.ok.inj same]
          exact normalize_stored updated
      | undone run quiescent logged modifications =>
          obtain ⟨rewound, _, same⟩ := bind_ok_iff.mp (map_ok (lens.rewind _ _ _) modifications)
          rw [← Except.ok.inj same]
          exact normalize_stored rewound

/-- Every logged key was stored when the block began, or some transaction has
applied a delta to it. -/
def LoggedKeysStored (store : StateStore Database) (before : GlobalContext Database)
    (block : BlockExecution Tx Database) : Prop :=
  ∀ key ∈ block.modifiedKeys,
    store.getCommittedValue key before.stateDb ≠ none ∨ key ∈ block.pushedKeys

/-- In every chain of blocks, the two ends of a block return for exactly the
blocks whose logged keys are stored. -/
def ReturnsWhenStored (cryptoShorthash : CryptoShorthash) (library : ContractLibrary)
    (Tx : Type) [DecidableEq Tx] (store : StateStore Database)
    (genesis : GlobalContext Database) : Prop :=
  ∀ before, Relation.ReflTransGen (EndsBlock cryptoShorthash library Tx store) genesis before →
    ∀ (programs : Tx → Program) (moves : List (BlockMove Tx)) (block : BlockExecution Tx Database),
      Run (MovesBlock cryptoShorthash library store programs) (.start before) moves block →
      block.Quiescent →
      ∀ (newKey : HashKey) (keys : List AddressAndKey), keys.Perm block.modifiedKeys →
        ((∃ after, store.commitModifications newKey keys block.globalContext.stateDb = .ok after) ↔
          LoggedKeysStored store before block) ∧
        ((∃ after, store.rewindModifications newKey keys block.globalContext.stateDb = .ok after) ↔
          LoggedKeysStored store before block)

theorem map_returns_iff {First Second Fault : Type} {computed : Except Fault First}
    {other : Except Fault Second} {view : First → Second} (same : computed.map view = other) :
    (∃ value, computed = .ok value) ↔ ∃ value, other = .ok value := by
  subst same
  cases computed with
  | error fault =>
      constructor
      · rintro ⟨_, impossible⟩
        cases impossible
      · rintro ⟨_, impossible⟩
        cases impossible
  | ok value => exact ⟨fun _ => ⟨_, rfl⟩, fun _ => ⟨_, rfl⟩⟩

theorem pass_returns_iff {Fault : Type} {pass : Except Fault StateTrie} :
    (∃ after, (do
      let updated ← pass
      .ok updated.normalize) = Except.ok after) ↔ ∃ updated, pass = .ok updated := by
  constructor
  · rintro ⟨after, returned⟩
    obtain ⟨updated, first, _⟩ := bind_ok_iff.mp returned
    exact ⟨updated, first⟩
  · rintro ⟨updated, first⟩
    exact ⟨updated.normalize, bind_ok_iff.mpr ⟨updated, first, rfl⟩⟩

theorem ends_return_iff (lens : TrieStore cryptoShorthash store)
    (rested : Rested lens.settlingStore before.stateDb) {programs : Tx → Program}
    {moves : List (BlockMove Tx)} {block : BlockExecution Tx Database}
    (run : Run (MovesBlock cryptoShorthash library store programs) (.start before) moves block)
    (quiescent : block.Quiescent) (newKey : HashKey) {keys : List AddressAndKey}
    (distinct : keys.Nodup) :
    ((∃ after, store.commitModifications newKey keys block.globalContext.stateDb = .ok after) ↔
      ∀ key ∈ keys, lens.trie block.globalContext.stateDb key ≠ none) ∧
    ((∃ after, store.rewindModifications newKey keys block.globalContext.stateDb = .ok after) ↔
      ∀ key ∈ keys, lens.trie block.globalContext.stateDb key ≠ none) := by
  constructor
  · rw [map_returns_iff (lens.commit newKey keys _), StateTrie.commitModifications,
      pass_returns_iff, update_keys_visits, visit_all_returns_iff distinct]
    intro key _ object entry
    obtain ⟨kempt, opening, agreement, base, accounts⟩ :=
      quiescent_closed rested run quiescent key
    have here : lens.settlingStore.objects block.globalContext.stateDb key = object :=
      trie_objects_entry entry
    rw [here] at accounts
    obtain ⟨after, returned⟩ := commit_round_returns (base ▸ kempt) accounts
    exact ⟨_, bind_ok_iff.mpr ⟨after, returned, rfl⟩⟩
  · rw [map_returns_iff (lens.rewind newKey keys _), StateTrie.rewindModifications,
      pass_returns_iff, rewind_keys_visits, visit_all_returns_iff distinct]
    exact fun key _ object _ => ⟨_, rfl⟩

theorem lens_returns_when_stored (lens : TrieStore cryptoShorthash store)
    (empty : ∀ key, lens.trie genesis.stateDb key = none) :
    ReturnsWhenStored cryptoShorthash library Tx store genesis := by
  intro before chain programs moves block run quiescent newKey keys logged
  have rested : Rested lens.settlingStore before.stateDb := by
    apply chain_rested (rested_empty trivial _) chain
    intro key
    exact congrArg (fun entry : Option RevertableObject => entry.getD .fresh) (empty key)
  have distinct := logged.nodup_iff.mpr (run_logs_once run)
  have stored : (∀ key ∈ keys, lens.trie block.globalContext.stateDb key ≠ none) ↔
      LoggedKeysStored store before block := by
    have there (key : AddressAndKey) : lens.trie block.globalContext.stateDb key ≠ none ↔
        store.getCommittedValue key before.stateDb ≠ none ∨ key ∈ block.pushedKeys := by
      have start : lens.trie before.stateDb key ≠ none ↔
          store.getCommittedValue key before.stateDb ≠ none := by
        rw [lens.value]
        exact stored_entry_iff (chain_stored lens empty chain) key
      rw [run_entries lens run key, start]
    simp only [LoggedKeysStored, there, logged.mem_iff]
  rw [← stored]
  exact ends_return_iff lens rested run quiescent newKey distinct

end Chain

/-- In every chain of blocks from an empty state, the ends of a block return for
exactly the blocks whose logged keys are stored. -/
theorem block_ends_return_iff (cryptoShorthash : CryptoShorthash) (library : ContractLibrary)
    (Tx : Type) [DecidableEq Tx] (contractDb : ContractDB) (currentTimestamp : UInt32) :
    ReturnsWhenStored cryptoShorthash library Tx (StateDBv2.store cryptoShorthash)
        { stateDb := { stateDb := fun _ => none }, contractDb := contractDb } ∧
      ReturnsWhenStored cryptoShorthash library Tx
        (GroundhogPersistentStateDB.store cryptoShorthash)
        { stateDb := { currentTimestamp := currentTimestamp, stateDb := fun _ => none }
          contractDb := contractDb } :=
  ⟨lens_returns_when_stored (StateDBv2.trieStore cryptoShorthash) fun _ => rfl,
    lens_returns_when_stored (GroundhogPersistentStateDB.trieStore cryptoShorthash) fun _ => rfl⟩

def addFive : Unit → Program := fun _ results =>
  if results.isEmpty then .call (.nonnegativeInt64Add 7 5) else .returns

def lookup : Unit → Program := fun _ results =>
  if results.isEmpty then .call (.get 7) else .returns

theorem block_ends_return_stored : ∃ stored block,
    EndsBlock (fun _ => 0) noContracts Unit (StateDBv2.store fun _ => 0)
      { stateDb := { stateDb := fun _ => none }, contractDb := .empty } stored ∧
    BlockExecution.performAll (fun _ => 0) noContracts (StateDBv2.store fun _ => 0) lookup
      [.call (), .call (), .pass ()] (.start stored) = some block ∧
    block.modifiedKeys = [7] ∧ block.pushedKeys = [] ∧
    (∃ after, (StateDBv2.store fun _ => 0).commitModifications 0 [7]
      block.globalContext.stateDb = .ok after) ∧
    ∃ after, (StateDBv2.store fun _ => 0).rewindModifications 0 [7]
      block.globalContext.stateDb = .ok after := by
  have both : ((BlockExecution.finishAll (fun _ => 0) noContracts (StateDBv2.store fun _ => 0)
      addFive 0 firstThread 1 [.call (), .call (), .push () .first, .pass (), .commit 0]
      { stateDb := { stateDb := fun _ => none }, contractDb := .empty }).bind fun first =>
        (BlockExecution.performAll (fun _ => 0) noContracts (StateDBv2.store fun _ => 0) lookup
          [.call (), .call (), .pass ()] (.start first.2)).map fun block =>
            (decide block.Quiescent, block.modifiedKeys, block.pushedKeys,
              ((StateDBv2.store fun _ => 0).getCommittedValue 7 first.2.stateDb).isSome)) =
                some (true, [7], [], true) := by
    decide +kernel
  obtain ⟨⟨first, stored⟩, finished, rest⟩ := Option.bind_eq_some_iff.mp both
  obtain ⟨block, looked, facts⟩ := Option.map_eq_some_iff.mp rest
  simp only [Prod.mk.injEq, decide_eq_true_eq] at facts
  obtain ⟨resting, keys, pushed, value⟩ := facts
  obtain ⟨run, quiescent, contracts, modifications⟩ := finish_all_ends finished
  have ends : EndsBlock (fun _ => 0) noContracts Unit (StateDBv2.store fun _ => 0)
      { stateDb := { stateDb := fun _ => none }, contractDb := .empty } stored :=
    .finished run quiescent (List.Perm.refl _) contracts modifications
  have listed : LoggedKeysStored (StateDBv2.store fun _ => 0) stored block := by
    intro key member
    rw [keys, List.mem_singleton] at member
    left
    rw [member]
    exact Option.isSome_iff_ne_none.mp value
  have returns := (block_ends_return_iff (fun _ => 0) noContracts Unit .empty 0).1 _ (.single ends)
    lookup _ block (run_of_perform_all looked) resting 0 [7] (keys ▸ List.Perm.refl _)
  exact ⟨_, block, ends, looked, keys, pushed, returns.1.mpr listed, returns.2.mpr listed⟩

/-- Nobody has stored anything under the key that is looked for. -/
theorem lookup_logged_not_stored :
    (∃ block, BlockExecution.performAll (fun _ => 0) noContracts (StateDBv2.store fun _ => 0)
        lookup [.call (), .call (), .pass ()]
        (.start { stateDb := { stateDb := fun _ => none }, contractDb := .empty }) = some block ∧
      block.Quiescent ∧
      (StateDBv2.store fun _ => 0).commitModifications 0 block.modifiedKeys
        block.globalContext.stateDb = .error (.runtimeError "should never happen") ∧
      (StateDBv2.store fun _ => 0).rewindModifications 0 block.modifiedKeys
        block.globalContext.stateDb = .error (.runtimeError "invalid nonsense")) ∧
    ∃ block, BlockExecution.performAll (fun _ => 0) noContracts
        (GroundhogPersistentStateDB.store fun _ => 0) lookup [.call (), .call (), .pass ()]
        (.start { stateDb := { currentTimestamp := 0, stateDb := fun _ => none }
                  contractDb := .empty }) = some block ∧
      block.Quiescent ∧
      (GroundhogPersistentStateDB.store fun _ => 0).commitModifications 0 block.modifiedKeys
        block.globalContext.stateDb = .error (.runtimeError "should never happen") ∧
      (GroundhogPersistentStateDB.store fun _ => 0).rewindModifications 0 block.modifiedKeys
        block.globalContext.stateDb = .error (.runtimeError "invalid nonsense") :=
  ⟨⟨_, rfl, ⟨rfl, fun _ => rfl⟩, rfl, rfl⟩, _, rfl, ⟨rfl, fun _ => rfl⟩, rfl, rfl⟩

end Scs
