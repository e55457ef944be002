import Scs.Object.NewHashTable
import Scs.StateDb.StateStore

/-!
# What a block leaves alone in a state database

Deltas and the calls of their rewinds change the objects of a database, but
never what it reports as committed.
-/

namespace Scs

set_option autoImplicit false

open Lockstep

/-- Within a block the database reports the same committed values. The deltas of the block
are kept beside them until `commit_modifications`. -/
structure SteadyStore {Database : Type} (store : StateStore Database) : Prop where
  push : ∀ {ids : CallIds} {key : AddressAndKey} {delta : StorageDelta} {db after : Database}
    {answer : Option DeltaRewind}, store.tryApplyDelta ids key delta db = .ok (answer, after) →
      ∀ other, store.getCommittedValue other after = store.getCommittedValue other db
  through : ∀ {key : AddressAndKey} {call : RevertableObject → Except Fault RevertableObject}
    {db after : Database},
      (∀ object changed, call object = .ok changed → SameFooting object changed) →
      store.throughRewind key call db = .ok after →
        ∀ other, store.getCommittedValue other after = store.getCommittedValue other db

variable {cryptoShorthash : CryptoShorthash} {keyedShorthash : KeyedShorthash}

theorem committed_update {trie : StateTrie} {key : AddressAndKey} {object after : RevertableObject}
    (entry : trie key = some object) (footing : SameFooting object after) (other : AddressAndKey) :
    StateTrie.getCommittedValue other (Function.update trie key (some after)) =
      StateTrie.getCommittedValue other trie := by
  unfold StateTrie.getCommittedValue
  by_cases same : other = key
  · subst same
    rw [Function.update_self, entry]
    exact footing.committedBase
  · rw [Function.update_of_ne same]

theorem committed_insert_entry (trie : StateTrie) (key other : AddressAndKey) :
    StateTrie.getCommittedValue other (trie.insertEntry key) =
      StateTrie.getCommittedValue other trie := by
  unfold StateTrie.insertEntry
  cases entry : trie key with
  | some object => rfl
  | none =>
      unfold StateTrie.getCommittedValue
      by_cases same : other = key
      · subst same
        simp only [Function.update_self, entry]
        rfl
      · simp only [Function.update_of_ne same]

theorem state_trie_push_committed {ids : CallIds} {key : AddressAndKey} {delta : StorageDelta}
    {trie after : StateTrie} {answer : Option DeltaRewind}
    (applied : trie.tryApplyDelta cryptoShorthash ids key delta = .ok (answer, after))
    (other : AddressAndKey) :
    StateTrie.getCommittedValue other after = StateTrie.getCommittedValue other trie := by
  unfold StateTrie.tryApplyDelta at applied
  simp only at applied
  rw [← committed_insert_entry trie key other]
  cases entry : trie.insertEntry key key with
  | none =>
      rw [entry] at applied
      cases applied
  | some object =>
      rw [entry] at applied
      obtain ⟨⟨_, changed⟩, returned, same⟩ := bind_ok_iff.mp applied
      cases same
      exact committed_update entry (try_add_delta_footing returned) other

theorem state_trie_through_committed {key : AddressAndKey}
    {call : RevertableObject → Except Fault RevertableObject} {trie after : StateTrie}
    (footing : ∀ object changed, call object = .ok changed → SameFooting object changed)
    (through : trie.throughRewind key call = .ok after) (other : AddressAndKey) :
    StateTrie.getCommittedValue other after = StateTrie.getCommittedValue other trie := by
  unfold StateTrie.throughRewind at through
  cases entry : trie key with
  | none =>
      rw [entry] at through
      cases through
  | some object =>
      rw [entry] at through
      obtain ⟨changed, returned, same⟩ := bind_ok_iff.mp through
      cases same
      exact committed_update entry (footing object changed returned) other

theorem state_db_steady : SteadyStore (StateDB.store cryptoShorthash keyedShorthash) where
  push := by
    intro ids key delta db after answer applied other
    simp only [StateDB.store, StateDB.tryApplyDelta] at applied
    cases entry : db.stateDb key with
    | none =>
        rw [entry] at applied
        obtain ⟨outcome, _, same⟩ := bind_ok_iff.mp applied
        cases same
        rfl
    | some object =>
        rw [entry] at applied
        obtain ⟨⟨_, changed⟩, returned, same⟩ := bind_ok_iff.mp applied
        cases same
        exact committed_update entry (try_add_delta_footing returned) other
  through := by
    intro key call db after footing through other
    simp only [StateDB.store, StateDB.throughRewind] at through
    cases entry : db.stateDb key with
    | none =>
        rw [entry] at through
        simp only at through
        cases cached : db.newKeyCache.find keyedShorthash key with
        | none =>
            rw [cached] at through
            cases through
        | some object =>
            rw [cached] at through
            obtain ⟨changed, _, same⟩ := bind_ok_iff.mp through
            cases same
            rfl
    | some object =>
        rw [entry] at through
        obtain ⟨changed, returned, same⟩ := bind_ok_iff.mp through
        cases same
        exact committed_update entry (footing object changed returned) other

theorem state_db_v2_steady : SteadyStore (StateDBv2.store cryptoShorthash) where
  push := by
    intro ids key delta db after answer applied
    obtain ⟨outcome, returned, same⟩ := bind_ok_iff.mp applied
    cases same
    exact state_trie_push_committed returned
  through := by
    intro key call db after footing through
    obtain ⟨trie, returned, same⟩ := bind_ok_iff.mp through
    cases same
    exact state_trie_through_committed footing returned

theorem groundhog_steady : SteadyStore (GroundhogPersistentStateDB.store cryptoShorthash) where
  push := by
    intro ids key delta db after answer applied
    obtain ⟨outcome, returned, same⟩ := bind_ok_iff.mp applied
    cases same
    exact state_trie_push_committed returned
  through := by
    intro key call db after footing through
    obtain ⟨trie, returned, same⟩ := bind_ok_iff.mp through
    cases same
    exact state_trie_through_committed footing returned

end Scs
