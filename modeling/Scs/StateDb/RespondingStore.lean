import Scs.Object.IndexUse
import Scs.StateDb.SettlingStore

/-!
# Databases that return whenever their objects do

Between the ends of blocks a database adds no exception of its own to what the
object of a key throws, and takes an index exactly when the object does.
-/

namespace Scs

set_option autoImplicit false

open Lockstep

/-- `Ready` is what a database keeps within a block. A key is `Present` from its
first delta on, so that the rewinds on it find their object. -/
structure RespondingStore {cryptoShorthash : CryptoShorthash} {Database : Type}
    {store : StateStore Database} (view : ObjectStore cryptoShorthash store) where
  Ready : Database → Prop
  Present : Database → AddressAndKey → Prop
  push_answers : ∀ {ids : CallIds} {key : AddressAndKey} {delta : StorageDelta} {db : Database},
    Ready db → (store.tryApplyDelta ids key delta db).map Prod.fst =
      ((view.objects db key).tryAddDelta cryptoShorthash ids delta).map Prod.fst
  push_ready : ∀ {ids : CallIds} {key : AddressAndKey} {delta : StorageDelta}
    {db after : Database} {answer : Option DeltaRewind}, Ready db →
      store.tryApplyDelta ids key delta db = .ok (answer, after) →
        Ready after ∧ Present after key ∧ ∀ other, Present db other → Present after other
  through_returns : ∀ {key : AddressAndKey}
    {call : RevertableObject → Except Fault RevertableObject} {db : Database}
    {changed : RevertableObject}, Present db key → call (view.objects db key) = .ok changed →
      ∃ after, store.throughRewind key call db = .ok after
  through_ready : ∀ {key : AddressAndKey}
    {call : RevertableObject → Except Fault RevertableObject} {db after : Database}, Ready db →
      store.throughRewind key call db = .ok after →
        Ready after ∧ ∀ other, Present db other → Present after other
  commit_ready : ∀ {newKey : HashKey} {keys : List AddressAndKey} {db after : Database},
    store.commitModifications newKey keys db = .ok after → Ready after
  rewind_ready : ∀ {newKey : HashKey} {keys : List AddressAndKey} {db after : Database},
    store.rewindModifications newKey keys db = .ok after → Ready after

theorem returned_of_map {First Second : Type} {computed : Except Fault First}
    {view : First → Second} {result : Second} (mapped : computed.map view = .ok result) :
    ∃ value, computed = .ok value ∧ view value = result := by
  cases computed with
  | error fault => cases mapped
  | ok value => exact ⟨value, rfl, Except.ok.inj mapped⟩

theorem exhausts_map {First Second : Type} (computed : Except Fault First)
    (view : First → Second) : exhausts (computed.map view) = exhausts computed := by
  cases computed <;> rfl

namespace RespondingStore

variable {cryptoShorthash : CryptoShorthash} {Database : Type} {store : StateStore Database}
  {view : ObjectStore cryptoShorthash store} (respond : RespondingStore view) {ids : CallIds}
  {key : AddressAndKey} {delta : StorageDelta} {db : Database}

include respond

theorem push_returns {answer : Option DeltaRewind} {changed : RevertableObject}
    (ready : respond.Ready db)
    (returned : (view.objects db key).tryAddDelta cryptoShorthash ids delta =
      .ok (answer, changed)) :
    ∃ after, store.tryApplyDelta ids key delta db = .ok (answer, after) := by
  have answers : (store.tryApplyDelta ids key delta db).map Prod.fst = _ :=
    respond.push_answers ready
  rw [returned] at answers
  obtain ⟨⟨_, after⟩, applied, rfl⟩ := returned_of_map answers
  exact ⟨after, applied⟩

theorem takes_index (ready : respond.Ready db) : store.takesIndex ids key delta db =
    (view.objects db key).takesIndex cryptoShorthash ids delta := by
  unfold StateStore.takesIndex RevertableObject.takesIndex
  rw [← exhausts_map _ Prod.fst, respond.push_answers ready, exhausts_map]

/-- A push on a thread that holds no more entries only returns when it needs none. -/
theorem push_entry {after : Database} {answer : Option DeltaRewind} {allocated : ℕ}
    (ready : respond.Ready db)
    (applied : store.tryApplyDelta (ids.holding allocated) key delta db = .ok (answer, after))
    (taken : store.takesIndex ids key delta db = true) : allocated < allocSize := by
  obtain ⟨changed, returned, _⟩ := view.push applied
  have index : IndexUse (fun count =>
      (view.objects db key).tryAddDelta cryptoShorthash (ids.holding count) delta) _ :=
    try_add_delta_index_use
  rw [← respond.takes_index ready, taken] at index
  exact index_use_room index returned

end RespondingStore

/-! ## Databases that keep new keys in the trie -/

section Trie

variable {cryptoShorthash : CryptoShorthash} {trie after : StateTrie} {key : AddressAndKey}

theorem insert_entry_present (trie : StateTrie) (key : AddressAndKey) :
    ∃ object, trie.insertEntry key key = some object := by
  unfold StateTrie.insertEntry
  cases entry : trie key with
  | none => exact ⟨_, Function.update_self _ _ _⟩
  | some object => exact ⟨object, entry⟩

theorem trie_push_answers {ids : CallIds} {delta : StorageDelta} :
    (trie.tryApplyDelta cryptoShorthash ids key delta).map Prod.fst =
      ((trie.objects key).tryAddDelta cryptoShorthash ids delta).map Prod.fst := by
  obtain ⟨object, entry⟩ := insert_entry_present trie key
  rw [← trie_objects_insert trie key, trie_objects_entry entry]
  unfold StateTrie.tryApplyDelta
  simp only [entry, bind, Except.bind]
  cases object.tryAddDelta cryptoShorthash ids delta <;> rfl

theorem trie_push_present {ids : CallIds} {delta : StorageDelta} {answer : Option DeltaRewind}
    (applied : trie.tryApplyDelta cryptoShorthash ids key delta = .ok (answer, after)) :
    after key ≠ none ∧ ∀ other, trie other ≠ none → after other ≠ none := by
  unfold StateTrie.tryApplyDelta at applied
  obtain ⟨object, entry⟩ := insert_entry_present trie key
  simp only [entry] at applied
  obtain ⟨⟨_, changed⟩, _, same⟩ := bind_ok_iff.mp applied
  cases same
  refine ⟨by rw [Function.update_self]; exact Option.some_ne_none _, ?_⟩
  intro other present
  by_cases here : other = key
  · subst here
    rw [Function.update_self]
    exact Option.some_ne_none _
  · rw [Function.update_of_ne here, StateTrie.insertEntry]
    cases trie key with
    | none =>
        simp only [Function.update_of_ne here]
        exact present
    | some stored => exact present

theorem trie_through_returns {call : RevertableObject → Except Fault RevertableObject}
    {changed : RevertableObject} (present : trie key ≠ none)
    (returned : call (trie.objects key) = .ok changed) :
    ∃ after, trie.throughRewind key call = .ok after := by
  obtain ⟨object, entry⟩ := Option.ne_none_iff_exists'.mp present
  rw [trie_objects_entry entry] at returned
  refine ⟨Function.update trie key (some changed), ?_⟩
  unfold StateTrie.throughRewind
  simp only [entry, bind, Except.bind, returned]

theorem trie_through_present {call : RevertableObject → Except Fault RevertableObject}
    (through : trie.throughRewind key call = .ok after) (other : AddressAndKey)
    (present : trie other ≠ none) : after other ≠ none := by
  unfold StateTrie.throughRewind at through
  cases entry : trie key with
  | none =>
      rw [entry] at through
      cases through
  | some object =>
      rw [entry] at through
      obtain ⟨changed, _, same⟩ := bind_ok_iff.mp through
      cases same
      by_cases here : other = key
      · subst here
        rw [Function.update_self]
        exact Option.some_ne_none _
      · rw [Function.update_of_ne here]
        exact present

def TrieStore.respondingStore {Database : Type} {store : StateStore Database}
    (lens : TrieStore cryptoShorthash store)
    (push : ∀ ids key delta db, (store.tryApplyDelta ids key delta db).map
      (fun result => (result.1, lens.trie result.2)) =
        (lens.trie db).tryApplyDelta cryptoShorthash ids key delta)
    (through : ∀ key call db, (store.throughRewind key call db).map lens.trie =
      (lens.trie db).throughRewind key call) :
    RespondingStore lens.settlingStore.toObjectStore where
  Ready _ := True
  Present db key := lens.trie db key ≠ none
  push_answers := by
    intro ids key delta db _
    have answers : ((lens.trie db).tryApplyDelta cryptoShorthash ids key delta).map Prod.fst = _ :=
      trie_push_answers
    rw [← push ids key delta db] at answers
    refine Eq.trans ?_ answers
    cases store.tryApplyDelta ids key delta db <;> rfl
  push_ready := by
    intro ids key delta db after answer _ applied
    exact ⟨trivial, trie_push_present (lens.push applied)⟩
  through_returns := by
    intro key call db changed present returned
    obtain ⟨trie, returned⟩ := trie_through_returns present returned
    obtain ⟨after, stored, _⟩ := returned_of_map ((through key call db).trans returned)
    exact ⟨after, stored⟩
  through_ready := by
    intro key call db after _ stored
    exact ⟨trivial, trie_through_present (lens.through stored)⟩
  commit_ready _ := trivial
  rewind_ready _ := trivial

def StateDBv2.respondingStore (cryptoShorthash : CryptoShorthash) :
    RespondingStore (StateDBv2.trieStore cryptoShorthash).settlingStore.toObjectStore :=
  (StateDBv2.trieStore cryptoShorthash).respondingStore
    (by
      intro ids key delta db
      simp only [StateDBv2.store, StateDBv2.tryApplyDelta, StateDBv2.trieStore]
      cases db.stateDb.tryApplyDelta cryptoShorthash ids key delta <;> rfl)
    (by
      intro key call db
      simp only [StateDBv2.store, StateDBv2.throughRewind, StateDBv2.trieStore]
      cases db.stateDb.throughRewind key call <;> rfl)

def GroundhogPersistentStateDB.respondingStore (cryptoShorthash : CryptoShorthash) :
    RespondingStore
      (GroundhogPersistentStateDB.trieStore cryptoShorthash).settlingStore.toObjectStore :=
  (GroundhogPersistentStateDB.trieStore cryptoShorthash).respondingStore
    (by
      intro ids key delta db
      simp only [GroundhogPersistentStateDB.store, GroundhogPersistentStateDB.tryApplyDelta,
        GroundhogPersistentStateDB.trieStore]
      cases db.stateDb.tryApplyDelta cryptoShorthash ids key delta <;> rfl)
    (by
      intro key call db
      simp only [GroundhogPersistentStateDB.store, GroundhogPersistentStateDB.throughRewind,
        GroundhogPersistentStateDB.trieStore]
      cases db.stateDb.throughRewind key call <;> rfl)

end Trie

/-! ## The database with a cache of new keys -/

section StateDB

variable {cryptoShorthash : CryptoShorthash} {keyedShorthash : KeyedShorthash}
  {db after : StateDB} {key : AddressAndKey}

def StateDB.Holds (keyedShorthash : KeyedShorthash) (db : StateDB) (key : AddressAndKey) : Prop :=
  db.stateDb key ≠ none ∨ db.newKeyCache.find keyedShorthash key ≠ none

theorem holds_entry {changed : RevertableObject} {uncommitted : Bool} :
    StateDB.Holds keyedShorthash
        { db with
          stateDb := Function.update db.stateDb key (some changed)
          hasUncommittedDeltas := uncommitted } key ∧
      ∀ other, db.Holds keyedShorthash other → StateDB.Holds keyedShorthash
        { db with
          stateDb := Function.update db.stateDb key (some changed)
          hasUncommittedDeltas := uncommitted } other := by
  have own : Function.update db.stateDb key (some changed) key ≠ none := by
    rw [Function.update_self]
    exact Option.some_ne_none _
  refine ⟨.inl own, ?_⟩
  intro other held
  by_cases here : other = key
  · subst here
    exact .inl own
  · unfold StateDB.Holds
    simp only [Function.update_of_ne here]
    exact held

theorem holds_cached {changed : RevertableObject} {uncommitted : Bool} :
    StateDB.Holds keyedShorthash
        { db with
          newKeyCache := db.newKeyCache.place keyedShorthash key changed
          hasUncommittedDeltas := uncommitted } key ∧
      ∀ other, db.Holds keyedShorthash other → StateDB.Holds keyedShorthash
        { db with
          newKeyCache := db.newKeyCache.place keyedShorthash key changed
          hasUncommittedDeltas := uncommitted } other := by
  have own : (db.newKeyCache.place keyedShorthash key changed).find keyedShorthash key ≠ none := by
    rw [NewKeyCache.find_place_self]
    exact Option.some_ne_none _
  refine ⟨.inr own, ?_⟩
  intro other held
  by_cases here : other = key
  · subst here
    exact .inr own
  · unfold StateDB.Holds
    simp only [NewKeyCache.find_place_other here]
    exact held

theorem state_db_push_answers {ids : CallIds} {delta : StorageDelta}
    (ready : db.newKeyCache.inTryReserveMode = true) :
    (db.tryApplyDelta cryptoShorthash keyedShorthash ids key delta).map Prod.fst =
      ((db.objects keyedShorthash key).tryAddDelta cryptoShorthash ids delta).map Prod.fst := by
  unfold StateDB.tryApplyDelta
  cases entry : db.stateDb key with
  | none =>
      rw [state_db_objects_cached entry]
      unfold NewKeyCache.tryReserveDelta
      simp only [ready, if_true, bind, Except.bind]
      cases ((db.newKeyCache.find keyedShorthash key).getD .fresh).tryAddDelta
        cryptoShorthash ids delta <;> rfl
  | some object =>
      rw [state_db_objects_entry entry]
      simp only [bind, Except.bind]
      cases object.tryAddDelta cryptoShorthash ids delta <;> rfl

theorem state_db_push_ready {ids : CallIds} {delta : StorageDelta} {answer : Option DeltaRewind}
    (ready : db.newKeyCache.inTryReserveMode = true)
    (applied : db.tryApplyDelta cryptoShorthash keyedShorthash ids key delta =
      .ok (answer, after)) :
    after.newKeyCache.inTryReserveMode = true ∧ after.Holds keyedShorthash key ∧
      ∀ other, db.Holds keyedShorthash other → after.Holds keyedShorthash other := by
  unfold StateDB.tryApplyDelta at applied
  cases entry : db.stateDb key with
  | none =>
      rw [entry] at applied
      obtain ⟨⟨_, cache⟩, reserved, same⟩ := bind_ok_iff.mp applied
      cases same
      unfold NewKeyCache.tryReserveDelta at reserved
      rw [if_pos ready] at reserved
      obtain ⟨⟨_, changed⟩, _, same⟩ := bind_ok_iff.mp reserved
      cases same
      exact ⟨ready, holds_cached⟩
  | some object =>
      rw [entry] at applied
      obtain ⟨⟨_, changed⟩, _, same⟩ := bind_ok_iff.mp applied
      cases same
      exact ⟨ready, holds_entry⟩

theorem state_db_through_returns {call : RevertableObject → Except Fault RevertableObject}
    {changed : RevertableObject} (held : db.Holds keyedShorthash key)
    (returned : call (db.objects keyedShorthash key) = .ok changed) :
    ∃ after, db.throughRewind keyedShorthash key call = .ok after := by
  unfold StateDB.throughRewind
  cases entry : db.stateDb key with
  | some object =>
      rw [state_db_objects_entry entry] at returned
      exact ⟨_, bind_ok_iff.mpr ⟨changed, returned, rfl⟩⟩
  | none =>
      rw [state_db_objects_cached entry] at returned
      cases cached : db.newKeyCache.find keyedShorthash key with
      | none =>
          rcases held with impossible | impossible
          · exact absurd entry impossible
          · exact absurd cached impossible
      | some object =>
          rw [cached, Option.getD_some] at returned
          exact ⟨_, bind_ok_iff.mpr ⟨changed, returned, rfl⟩⟩

theorem state_db_through_ready {call : RevertableObject → Except Fault RevertableObject}
    (ready : db.newKeyCache.inTryReserveMode = true)
    (through : db.throughRewind keyedShorthash key call = .ok after) :
    after.newKeyCache.inTryReserveMode = true ∧
      ∀ other, db.Holds keyedShorthash other → after.Holds keyedShorthash other := by
  unfold StateDB.throughRewind at through
  cases entry : db.stateDb key with
  | some object =>
      rw [entry] at through
      obtain ⟨changed, _, same⟩ := bind_ok_iff.mp through
      cases same
      exact ⟨ready, holds_entry.2⟩
  | none =>
      rw [entry] at through
      cases cached : db.newKeyCache.find keyedShorthash key with
      | none =>
          rw [cached] at through
          cases through
      | some object =>
          rw [cached] at through
          obtain ⟨changed, _, same⟩ := bind_ok_iff.mp through
          cases same
          exact ⟨ready, holds_cached.2⟩

/-- The end of a block empties the cache, which takes reservations again. -/
def StateDB.respondingStore (cryptoShorthash : CryptoShorthash) (keyedShorthash : KeyedShorthash) :
    RespondingStore (StateDB.settlingStore cryptoShorthash keyedShorthash).toObjectStore where
  Ready db := db.newKeyCache.inTryReserveMode = true
  Present db key := db.Holds keyedShorthash key
  push_answers ready := state_db_push_answers ready
  push_ready ready applied := state_db_push_ready ready applied
  through_returns held returned := state_db_through_returns held returned
  through_ready ready through := state_db_through_ready ready through
  commit_ready := by
    intro newKey keys db after returned
    obtain ⟨updated, _, same⟩ := bind_ok_iff.mp returned
    cases same
    rfl
  rewind_ready := by
    intro newKey keys db after returned
    cases returned
    simp only [StateDB.rewindModifications, rewind_keys_cache]
    rfl

end StateDB

end Scs
