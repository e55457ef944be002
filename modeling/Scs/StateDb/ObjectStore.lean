import Scs.TransactionContext.BlockExecution
import Scs.TransactionContext.SerialReplay

/-!
# The objects behind a state database

Wherever a database keeps the object of a key, a call on the key is a call on
that object. In any run of a block the object accounts for the rewinds that are
open on its key and for the deltas that were committed on it.
-/

namespace Scs

set_option autoImplicit false

open Ledger Lockstep Runs TwoPhase

/-- One object for every key; a call on a key changes that object only. Each of the three
databases is seen in this way, whatever it keeps beside the objects. -/
structure ObjectStore (cryptoShorthash : CryptoShorthash) {Database : Type}
    (store : StateStore Database) where
  objects : Database → Objects
  push : ∀ {ids : CallIds} {key : AddressAndKey} {delta : StorageDelta} {db after : Database}
    {answer : Option DeltaRewind}, store.tryApplyDelta ids key delta db = .ok (answer, after) →
      ∃ changed, (objects db key).tryAddDelta cryptoShorthash ids delta = .ok (answer, changed) ∧
        objects after = Function.update (objects db) key changed
  through : ∀ {key : AddressAndKey} {call : RevertableObject → Except Fault RevertableObject}
    {db after : Database}, store.throughRewind key call db = .ok after →
      ∃ changed, call (objects db key) = .ok changed ∧
        objects after = Function.update (objects db) key changed

/-! ## The three databases -/

section Databases

variable {cryptoShorthash : CryptoShorthash} {keyedShorthash : KeyedShorthash}

def StateTrie.objects (trie : StateTrie) : Objects := fun key => (trie key).getD .fresh

theorem trie_objects_entry {trie : StateTrie} {key : AddressAndKey} {object : RevertableObject}
    (entry : trie key = some object) : trie.objects key = object := by
  rw [StateTrie.objects, entry]
  rfl

theorem trie_objects_update (trie : StateTrie) (key : AddressAndKey) (object : RevertableObject) :
    StateTrie.objects (Function.update trie key (some object)) =
      Function.update trie.objects key object := by
  funext other
  unfold StateTrie.objects
  by_cases same : other = key
  · subst same
    simp only [Function.update_self, Option.getD_some]
  · simp only [Function.update_of_ne same]

theorem trie_objects_insert (trie : StateTrie) (key : AddressAndKey) :
    (trie.insertEntry key).objects = trie.objects := by
  unfold StateTrie.insertEntry
  cases entry : trie key with
  | some object => rfl
  | none =>
      have absent : trie.objects key = .fresh := by
        rw [StateTrie.objects, entry]
        rfl
      simp only [trie_objects_update, ← absent, Function.update_eq_self]

theorem trie_push_objects {ids : CallIds} {key : AddressAndKey} {delta : StorageDelta}
    {trie after : StateTrie} {answer : Option DeltaRewind}
    (applied : trie.tryApplyDelta cryptoShorthash ids key delta = .ok (answer, after)) :
    ∃ changed, (trie.objects key).tryAddDelta cryptoShorthash ids delta = .ok (answer, changed) ∧
      after.objects = Function.update trie.objects key changed := by
  unfold StateTrie.tryApplyDelta at applied
  simp only at applied
  rw [← trie_objects_insert trie key]
  cases entry : trie.insertEntry key key with
  | none =>
      rw [entry] at applied
      cases applied
  | some object =>
      rw [entry] at applied
      obtain ⟨⟨_, changed⟩, returned, same⟩ := bind_ok_iff.mp applied
      cases same
      rw [trie_objects_entry entry]
      exact ⟨changed, returned, trie_objects_update _ key changed⟩

theorem trie_through_objects {key : AddressAndKey}
    {call : RevertableObject → Except Fault RevertableObject} {trie after : StateTrie}
    (through : trie.throughRewind key call = .ok after) :
    ∃ changed, call (trie.objects key) = .ok changed ∧
      after.objects = Function.update trie.objects key changed := by
  unfold StateTrie.throughRewind at through
  cases entry : trie key with
  | none =>
      rw [entry] at through
      cases through
  | some object =>
      rw [entry] at through
      obtain ⟨changed, returned, same⟩ := bind_ok_iff.mp through
      cases same
      rw [trie_objects_entry entry]
      exact ⟨changed, returned, trie_objects_update _ key changed⟩

structure TrieStore (cryptoShorthash : CryptoShorthash) {Database : Type}
    (store : StateStore Database) where
  trie : Database → StateTrie
  value : ∀ key db, store.getCommittedValue key db = (trie db).getCommittedValue key
  push : ∀ {ids : CallIds} {key : AddressAndKey} {delta : StorageDelta} {db after : Database}
    {answer : Option DeltaRewind}, store.tryApplyDelta ids key delta db = .ok (answer, after) →
      (trie db).tryApplyDelta cryptoShorthash ids key delta = .ok (answer, trie after)
  through : ∀ {key : AddressAndKey} {call : RevertableObject → Except Fault RevertableObject}
    {db after : Database}, store.throughRewind key call db = .ok after →
      (trie db).throughRewind key call = .ok (trie after)
  commit : ∀ newKey keys db,
    (store.commitModifications newKey keys db).map trie = (trie db).commitModifications keys
  rewind : ∀ newKey keys db,
    (store.rewindModifications newKey keys db).map trie = (trie db).rewindModifications keys

def TrieStore.objectStore {Database : Type} {store : StateStore Database}
    (lens : TrieStore cryptoShorthash store) : ObjectStore cryptoShorthash store where
  objects db := (lens.trie db).objects
  push applied := trie_push_objects (lens.push applied)
  through through := trie_through_objects (lens.through through)

def StateDBv2.trieStore (cryptoShorthash : CryptoShorthash) :
    TrieStore cryptoShorthash (StateDBv2.store cryptoShorthash) where
  trie db := db.stateDb
  value _ _ := rfl
  push := by
    intro ids key delta db after answer applied
    obtain ⟨outcome, returned, same⟩ := bind_ok_iff.mp applied
    cases same
    exact returned
  through := by
    intro key call db after through
    obtain ⟨trie, returned, same⟩ := bind_ok_iff.mp through
    cases same
    exact returned
  commit newKey keys db := by
    simp only [StateDBv2.store, StateDBv2.commitModifications]
    cases db.stateDb.commitModifications keys <;> rfl
  rewind newKey keys db := by
    simp only [StateDBv2.store, StateDBv2.rewindModifications]
    cases db.stateDb.rewindModifications keys <;> rfl

def GroundhogPersistentStateDB.trieStore (cryptoShorthash : CryptoShorthash) :
    TrieStore cryptoShorthash (GroundhogPersistentStateDB.store cryptoShorthash) where
  trie db := db.stateDb
  value _ _ := rfl
  push := by
    intro ids key delta db after answer applied
    obtain ⟨outcome, returned, same⟩ := bind_ok_iff.mp applied
    cases same
    exact returned
  through := by
    intro key call db after through
    obtain ⟨trie, returned, same⟩ := bind_ok_iff.mp through
    cases same
    exact returned
  commit newKey keys db := by
    simp only [GroundhogPersistentStateDB.store, GroundhogPersistentStateDB.commitModifications]
    cases db.stateDb.commitModifications keys <;> rfl
  rewind newKey keys db := by
    simp only [GroundhogPersistentStateDB.store, GroundhogPersistentStateDB.rewindModifications]
    cases db.stateDb.rewindModifications keys <;> rfl

end Databases

/-! ## The ledgers of a block -/

def ObjectStore.world {cryptoShorthash : CryptoShorthash} {Tx : Type*} {Database : Type}
    {store : StateStore Database} (view : ObjectStore cryptoShorthash store)
    (block : BlockExecution Tx Database) : World where
  objects := view.objects block.globalContext.stateDb
  held := block.held

def BlockKept {cryptoShorthash : CryptoShorthash} {Tx : Type*} {Database : Type}
    {store : StateStore Database} (view : ObjectStore cryptoShorthash store)
    (openings : AddressAndKey → Opening) (block : BlockExecution Tx Database) : Prop :=
  WorldKept cryptoShorthash openings (fun key => deltasOn key block.books.committed)
    (view.world block)

section Kept

variable {cryptoShorthash : CryptoShorthash} {library : ContractLibrary} {Tx : Type*}
  {Database : Type} [DecidableEq Tx] {store : StateStore Database}
  {view : ObjectStore cryptoShorthash store} {programs : Tx → Program}
  {openings : AddressAndKey → Opening} {block next : BlockExecution Tx Database}

theorem world_kept_update {world : World}
    {committed after : Multiset (AddressAndKey × StorageDelta)}
    (kept : WorldKept cryptoShorthash openings (fun key => deltasOn key committed) world)
    {key : AddressAndKey} {held : Rewinds} {changed : RevertableObject}
    (here : ∃ agreement, Accounts cryptoShorthash (openings key) ↑(Rewinds.on key held)
      (deltasOn key after) agreement changed)
    (elsewhere : ∀ other, other ≠ key →
      (Rewinds.on other held : Multiset DeltaRewind) = Rewinds.on other world.held ∧
        deltasOn other after = deltasOn other committed) :
    WorldKept cryptoShorthash openings (fun key => deltasOn key after)
      { objects := Function.update world.objects key changed, held := held } := by
  intro other
  by_cases same : other = key
  · subst same
    simp only [Function.update_self]
    exact here
  · obtain ⟨rewinds, deltas⟩ := elsewhere other same
    simp only [Function.update_of_ne same, rewinds, deltas]
    exact kept other

omit [DecidableEq Tx] in
theorem block_held_found {position : Nat} {tx : Tx} {key : AddressAndKey} {rewind : DeltaRewind}
    (found : block.books.held[position]? = some (tx, key, rewind)) :
    block.held[position]? = some (key, rewind) := by
  rw [BlockExecution.held, List.getElem?_map, found]
  rfl

theorem moves_block_kept (block : BlockExecution Tx Database) (move : BlockMove Tx)
    (next : BlockExecution Tx Database) (kept : BlockKept view openings block)
    (moves : MovesBlock cryptoShorthash library store programs block move next) :
    BlockKept view openings next := by
  cases block_move_cases moves with
  | went running status => exact kept
  | returned running status => exact kept
  | threw running status => exact kept
  | @accepted tx ids key delta rest rewind after status phase applied =>
      obtain ⟨changed, returned, objects⟩ := view.push applied
      obtain ⟨agreement, accounts⟩ := kept key
      have outcome := push_outcome accounts delta (block.issued ids)
      have there : (view.world block).objects key =
          view.objects block.globalContext.stateDb key := rfl
      rw [there, returned] at outcome
      cases outcome with
      | accepted pushed =>
          unfold BlockKept ObjectStore.world
          simp only [BlockExecution.withPush, BlockExecution.withStateDb, objects]
          apply world_kept_update kept
          · rw [BlockExecution.held, Books.accept, List.map_cons, Rewinds.on_self,
              ← Multiset.cons_coe]
            exact pushed.accounts
          · intro other different
            rw [BlockExecution.held, Books.accept, List.map_cons,
              Rewinds.on_other other different]
            exact ⟨rfl, rfl⟩
  | @rejected tx ids key delta rest after status phase applied =>
      obtain ⟨changed, returned, objects⟩ := view.push applied
      obtain ⟨agreement, accounts⟩ := kept key
      have outcome := push_outcome accounts delta (block.issued ids)
      have there : (view.world block).objects key =
          view.objects block.globalContext.stateDb key := rfl
      rw [there, returned] at outcome
      cases outcome with
      | rejected rejected reason =>
          unfold BlockKept ObjectStore.world
          simp only [BlockExecution.withPush, BlockExecution.withStateDb, objects]
          apply world_kept_update kept
          · exact ⟨agreement, rejected.accounts⟩
          · exact fun other _ => ⟨rfl, rfl⟩
  | gaveUp status phase => exact kept
  | passed status phase updates => exact kept
  | @committed position tx key rewind after found phase through =>
      obtain ⟨changed, returned, objects⟩ := view.through through
      obtain ⟨agreement, accounts⟩ := kept key
      have there := block_held_found found
      have opened : (Rewinds.on key (view.world block).held : Multiset DeltaRewind) = _ :=
        on_erase_self there
      rw [opened] at accounts
      obtain ⟨result, again, counted, _⟩ := rewind_commit_spec accounts
      have same : changed = result := Except.ok.inj (returned.symm.trans again)
      subst same
      unfold BlockKept ObjectStore.world
      simp only [BlockExecution.withStateDb, objects, BlockExecution.held, Books.commitAt,
        ← List.eraseIdx_map]
      apply world_kept_update kept
      · rw [deltas_on_self]
        exact counted
      · intro other different
        exact ⟨on_erase_other there different, deltas_on_other other different _ _⟩
  | closed next run => exact kept
  | persisted => exact kept
  | @destroyed position newId tx key rewind after found phase through =>
      obtain ⟨changed, returned, objects⟩ := view.through through
      obtain ⟨agreement, accounts⟩ := kept key
      have there := block_held_found found
      have opened : (Rewinds.on key (view.world block).held : Multiset DeltaRewind) = _ :=
        on_erase_self there
      rw [opened] at accounts
      rcases rewind_destroy_spec accounts newId with ⟨_, _, spins⟩ | ⟨result, again, spec⟩
      · have impossible := returned.symm.trans spins
        cases impossible
      · have same : changed = result := Except.ok.inj (returned.symm.trans again)
        subst same
        unfold BlockKept ObjectStore.world
        simp only [BlockExecution.withStateDb, objects, BlockExecution.held, Books.destroyAt,
          ← List.eraseIdx_map]
        apply world_kept_update kept
        · exact spec.accounts
        · intro other different
          exact ⟨on_erase_other there different, rfl⟩

theorem run_block_kept {globalContext : GlobalContext Database} {moves : List (BlockMove Tx)}
    (openings : AddressAndKey → Opening)
    (start : ∀ key, Accounts cryptoShorthash (openings key) 0 0 .undecided
      (view.objects globalContext.stateDb key))
    (run : Run (MovesBlock cryptoShorthash library store programs) (.start globalContext) moves
      block) : BlockKept view openings block := by
  apply run_invariant (BlockKept view openings) moves_block_kept _ run
  intro key
  exact ⟨.undecided, start key⟩

end Kept

end Scs
