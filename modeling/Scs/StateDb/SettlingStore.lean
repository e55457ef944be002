import Scs.Library.Visits
import Scs.Object.NewHashTable
import Scs.StateDb.ObjectStore

/-!
# What the end of a block does to the objects behind a database

It finishes the objects of the logged keys and leaves the rest. A database may
then drop an object and construct it again over what it has committed.
-/

namespace Scs

set_option autoImplicit false

open Lockstep Visits

/-- The object that the next block finds where this one left `object`: the object itself, or
one that is constructed again from its committed value. -/
inductive Resumes (object : RevertableObject) : RevertableObject → Prop
  | same : Resumes object object
  | reloaded : Resumes object (.onBase object.getCommittedObject)

theorem resumes_committed {object after : RevertableObject} (resumes : Resumes object after) :
    after.getCommittedObject = object.getCommittedObject := by
  cases resumes with
  | same => rfl
  | reloaded => cases object.getCommittedObject <;> rfl

/-- An object without a committed value is constructed again as a fresh one. -/
theorem resumes_fresh {object : RevertableObject} (uncommitted : object.getCommittedObject = none) :
    Resumes object .fresh := by
  have again : RevertableObject.onBase object.getCommittedObject = .fresh := by
    rw [uncommitted]
    rfl
  exact again ▸ .reloaded

structure Ends (finish : RevertableObject → Except Fault RevertableObject)
    (keys : List AddressAndKey) (before after : Objects) : Prop where
  visited : ∀ key ∈ keys, ∃ changed, finish (before key) = .ok changed ∧ Resumes changed (after key)
  left : ∀ key, key ∉ keys → Resumes (before key) (after key)

/-- Undoing what a block did to an object never fails. -/
def rewindFinish (object : RevertableObject) : Except Fault RevertableObject :=
  .ok object.rewindRound

/-- What a trie has for a key at the next block: an entry without a committed value goes. -/
def RevertableObject.kept (object : RevertableObject) : RevertableObject :=
  if object.getCommittedObject.isNone then .fresh else object

theorem kept_uncommitted {object : RevertableObject}
    (uncommitted : object.getCommittedObject = none) : object.kept = .fresh := by
  rw [RevertableObject.kept, uncommitted]
  rfl

theorem kept_committed {object : RevertableObject} {stored : StorageObject}
    (committed : object.getCommittedObject = some stored) : object.kept = object := by
  rw [RevertableObject.kept, committed]
  rfl

theorem resumes_kept (object : RevertableObject) : Resumes object object.kept := by
  cases stored : object.getCommittedObject with
  | none =>
      rw [kept_uncommitted stored]
      exact resumes_fresh stored
  | some committed =>
      rw [kept_committed stored]
      exact .same

theorem kept_again (object : RevertableObject) : object.kept.kept = object.kept := by
  cases stored : object.getCommittedObject with
  | none =>
      rw [kept_uncommitted stored]
      rfl
  | some committed => rw [kept_committed stored, kept_committed stored]

structure KeptEnds (finish : RevertableObject → Except Fault RevertableObject)
    (keys : List AddressAndKey) (before after : Objects) : Prop where
  visited : ∀ key ∈ keys, ∃ changed, finish (before key) = .ok changed ∧ after key = changed.kept
  left : ∀ key, key ∉ keys → after key = (before key).kept

theorem KeptEnds.ends {finish : RevertableObject → Except Fault RevertableObject}
    {keys : List AddressAndKey} {before after : Objects}
    (keeps : KeptEnds finish keys before after) :
    Ends finish keys before after where
  visited key listed := by
    obtain ⟨changed, finished, same⟩ := keeps.visited key listed
    exact ⟨changed, finished, same ▸ resumes_kept changed⟩
  left key unlisted := by
    rw [keeps.left key unlisted]
    exact resumes_kept (before key)

/-- A database whose blocks end on the objects behind it. `Sound` is what the
database keeps for that. -/
structure SettlingStore (cryptoShorthash : CryptoShorthash) {Database : Type}
    (store : StateStore Database) extends ObjectStore cryptoShorthash store where
  Sound : Database → Prop
  push_sound : ∀ {ids : CallIds} {key : AddressAndKey} {delta : StorageDelta}
    {db after : Database} {answer : Option DeltaRewind}, Sound db →
      store.tryApplyDelta ids key delta db = .ok (answer, after) → Sound after
  through_sound : ∀ {key : AddressAndKey}
    {call : RevertableObject → Except Fault RevertableObject} {db after : Database}, Sound db →
      (∀ object changed, call object = .ok changed → SameFooting object changed) →
        store.throughRewind key call db = .ok after → Sound after
  committed : ∀ {db : Database}, Sound db → ∀ key,
    store.getCommittedValue key db = (objects db key).getCommittedObject
  commit : ∀ {newKey : HashKey} {keys : List AddressAndKey} {db after : Database}, Sound db →
    keys.Nodup → store.commitModifications newKey keys db = .ok after →
      Sound after ∧ Ends RevertableObject.commitRound keys (objects db) (objects after)
  rewind : ∀ {newKey : HashKey} {keys : List AddressAndKey} {db after : Database}, Sound db →
    keys.Nodup → store.rewindModifications newKey keys db = .ok after →
      Sound after ∧ Ends rewindFinish keys (objects db) (objects after)

/-! ## Databases that keep new keys in the trie -/

section Trie

variable {cryptoShorthash : CryptoShorthash} {keys : List AddressAndKey} {trie after : StateTrie}
  {key : AddressAndKey}

def updateEntry (mainDbValue : RevertableObject) : Except Fault (Option RevertableObject) := do
  let after ← mainDbValue.commitRound
  .ok (if after.getCommittedObject.isNone then none else some after)

def rewindEntry (mainDbValue : RevertableObject) : Except Fault (Option RevertableObject) :=
  .ok (some mainDbValue.rewindRound)

theorem update_key_visits (key : AddressAndKey) (trie : StateTrie) :
    trie.updateKey key = visit updateEntry (.runtimeError "should never happen") key trie := by
  unfold StateTrie.updateKey visit updateEntry
  cases trie key with
  | none => rfl
  | some object =>
      simp only [bind, Except.bind]
      cases object.commitRound <;> rfl

theorem rewind_key_visits (key : AddressAndKey) (trie : StateTrie) :
    trie.rewindKey key = visit rewindEntry (.runtimeError "invalid nonsense") key trie := by
  unfold StateTrie.rewindKey visit rewindEntry
  cases trie key <;> rfl

theorem update_keys_visits (keys : List AddressAndKey) (trie : StateTrie) :
    trie.updateKeys keys =
      visitAll updateEntry (.runtimeError "should never happen") keys trie := by
  unfold StateTrie.updateKeys visitAll
  congr
  funext trie key
  exact update_key_visits key trie

theorem rewind_keys_visits (keys : List AddressAndKey) (trie : StateTrie) :
    trie.rewindKeys keys = visitAll rewindEntry (.runtimeError "invalid nonsense") keys trie := by
  unfold StateTrie.rewindKeys visitAll
  congr
  funext trie key
  exact rewind_key_visits key trie

/-- An entry whose object has been deleted is gone; the others stay. -/
theorem left_kept (object : RevertableObject) :
    (if object.getCommittedObject.isNone then none else some object).getD .fresh =
      object.kept := by
  unfold RevertableObject.kept
  split_ifs <;> rfl

theorem resumes_left (object : RevertableObject) :
    Resumes object
      ((if object.getCommittedObject.isNone then none else some object).getD .fresh) := by
  rw [left_kept]
  exact resumes_kept object

theorem normalized_kept (trie : StateTrie) (key : AddressAndKey) :
    trie.normalize.objects key = (trie.objects key).kept := by
  unfold StateTrie.objects StateTrie.normalize
  cases trie key with
  | none => rfl
  | some object =>
      rw [Option.filter_some, Option.getD_some]
      cases stored : object.getCommittedObject with
      | none =>
          rw [kept_uncommitted stored]
          rfl
      | some committed =>
          rw [kept_committed stored]
          rfl

theorem trie_commit_keeps (distinct : keys.Nodup)
    (returned : trie.commitModifications keys = .ok after) :
    KeptEnds RevertableObject.commitRound keys trie.objects after.objects := by
  obtain ⟨updated, pass, same⟩ := bind_ok_iff.mp returned
  cases same
  rw [update_keys_visits] at pass
  obtain ⟨visited, others⟩ := visit_all_visits distinct pass
  constructor
  · intro key listed
    obtain ⟨object, held, finished⟩ := visited key listed
    obtain ⟨changed, round, left⟩ := bind_ok_iff.mp finished
    rw [trie_objects_entry held]
    refine ⟨changed, round, ?_⟩
    rw [normalized_kept, StateTrie.objects, ← Except.ok.inj left, left_kept, kept_again]
  · intro key unlisted
    have same : updated.objects key = trie.objects key := by
      rw [StateTrie.objects, StateTrie.objects, others key unlisted]
    rw [normalized_kept, same]

theorem trie_rewind_keeps (distinct : keys.Nodup)
    (returned : trie.rewindModifications keys = .ok after) :
    KeptEnds rewindFinish keys trie.objects after.objects := by
  obtain ⟨rewound, pass, same⟩ := bind_ok_iff.mp returned
  cases same
  rw [rewind_keys_visits] at pass
  obtain ⟨visited, others⟩ := visit_all_visits distinct pass
  constructor
  · intro key listed
    obtain ⟨object, held, finished⟩ := visited key listed
    rw [trie_objects_entry held]
    refine ⟨object.rewindRound, rfl, ?_⟩
    have entry : rewound.objects key = object.rewindRound :=
      trie_objects_entry (Except.ok.inj finished).symm
    rw [normalized_kept, entry]
  · intro key unlisted
    have same : rewound.objects key = trie.objects key := by
      rw [StateTrie.objects, StateTrie.objects, others key unlisted]
    rw [normalized_kept, same]

theorem trie_commit_ends (distinct : keys.Nodup)
    (returned : trie.commitModifications keys = .ok after) :
    Ends RevertableObject.commitRound keys trie.objects after.objects :=
  (trie_commit_keeps distinct returned).ends

theorem trie_rewind_ends (distinct : keys.Nodup)
    (returned : trie.rewindModifications keys = .ok after) :
    Ends rewindFinish keys trie.objects after.objects :=
  (trie_rewind_keeps distinct returned).ends

theorem trie_committed (trie : StateTrie) (key : AddressAndKey) :
    trie.getCommittedValue key = (trie.objects key).getCommittedObject := by
  unfold StateTrie.getCommittedValue StateTrie.objects
  cases trie key <;> rfl

theorem map_ok {First Second : Type} {computed : Except Fault First} {view : First → Second}
    {result : First} {other : Except Fault Second} (same : computed.map view = other)
    (returned : computed = .ok result) : other = .ok (view result) := by
  subst same returned
  rfl

def TrieStore.settlingStore {Database : Type} {store : StateStore Database}
    (lens : TrieStore cryptoShorthash store) : SettlingStore cryptoShorthash store where
  toObjectStore := lens.objectStore
  Sound _ := True
  push_sound _ _ := trivial
  through_sound _ _ _ := trivial
  committed _ key := (lens.value key _).trans (trie_committed _ key)
  commit _ distinct returned :=
    ⟨trivial, trie_commit_ends distinct (map_ok (lens.commit _ _ _) returned)⟩
  rewind _ distinct returned :=
    ⟨trivial, trie_rewind_ends distinct (map_ok (lens.rewind _ _ _) returned)⟩

end Trie

/-! ## The database with a cache of new keys -/

section StateDB

variable {cryptoShorthash : CryptoShorthash} {keyedShorthash : KeyedShorthash}
  {keys : List AddressAndKey} {db after : StateDB} {key : AddressAndKey}

/-- A cached object belongs to a key without an entry, and nothing of it is committed. -/
def StateDB.CacheApart (keyedShorthash : KeyedShorthash) (db : StateDB) : Prop :=
  ∀ key object, db.newKeyCache.find keyedShorthash key = some object →
    db.stateDb key = none ∧ object.getCommittedObject = none

/-- The object of a key: its entry, or its cached object, or the one that its
first delta gets. -/
def StateDB.objects (keyedShorthash : KeyedShorthash) (db : StateDB) : Objects := fun key =>
  (db.stateDb key).getD ((db.newKeyCache.find keyedShorthash key).getD .fresh)

theorem state_db_objects_entry {object : RevertableObject} (entry : db.stateDb key = some object) :
    db.objects keyedShorthash key = object := by
  rw [StateDB.objects, entry]
  rfl

theorem state_db_objects_cached (entry : db.stateDb key = none) :
    db.objects keyedShorthash key =
      (db.newKeyCache.find keyedShorthash key).getD .fresh := by
  rw [StateDB.objects, entry]
  rfl

theorem state_db_entry_update {object : RevertableObject} (entry : db.stateDb key = some object)
    (changed : RevertableObject) (uncommitted : Bool) :
    StateDB.objects keyedShorthash
        { db with
          stateDb := Function.update db.stateDb key (some changed)
          hasUncommittedDeltas := uncommitted } =
      Function.update (db.objects keyedShorthash) key changed := by
  funext other
  unfold StateDB.objects
  by_cases same : other = key
  · subst same
    simp only [Function.update_self, Option.getD_some]
  · simp only [Function.update_of_ne same]

theorem state_db_cache_update (entry : db.stateDb key = none) (changed : RevertableObject)
    (uncommitted : Bool) :
    StateDB.objects keyedShorthash
        { db with
          newKeyCache := db.newKeyCache.place keyedShorthash key changed
          hasUncommittedDeltas := uncommitted } =
      Function.update (db.objects keyedShorthash) key changed := by
  funext other
  unfold StateDB.objects
  by_cases same : other = key
  · subst same
    simp only [entry, NewKeyCache.find_place_self, Function.update_self, Option.getD_some,
      Option.getD_none]
  · simp only [NewKeyCache.find_place_other same, Function.update_of_ne same]

structure ObjectCall (keyedShorthash : KeyedShorthash) (key : AddressAndKey)
    (changed : RevertableObject) (db after : StateDB) : Prop where
  objects : after.objects keyedShorthash = Function.update (db.objects keyedShorthash) key changed
  apart : db.CacheApart keyedShorthash → SameFooting (db.objects keyedShorthash key) changed →
    after.CacheApart keyedShorthash

theorem entry_call {object changed : RevertableObject} (entry : db.stateDb key = some object)
    (uncommitted : Bool) :
    ObjectCall keyedShorthash key changed db
      { db with
        stateDb := Function.update db.stateDb key (some changed)
        hasUncommittedDeltas := uncommitted } where
  objects := state_db_entry_update entry changed uncommitted
  apart apart _ := by
    intro other cached found
    obtain ⟨missing, uncommitted⟩ := apart other cached found
    have different : other ≠ key := by
      rintro rfl
      rw [entry] at missing
      cases missing
    exact ⟨(Function.update_of_ne different _ _).trans missing, uncommitted⟩

theorem cache_call {changed : RevertableObject} (entry : db.stateDb key = none)
    (uncommitted : Bool) :
    ObjectCall keyedShorthash key changed db
      { db with
        newKeyCache := db.newKeyCache.place keyedShorthash key changed
        hasUncommittedDeltas := uncommitted } where
  objects := state_db_cache_update entry changed uncommitted
  apart apart footing := by
    intro other cached found
    by_cases same : other = key
    · subst same
      rw [NewKeyCache.find_place_self] at found
      cases found
      refine ⟨entry, footing.committedBase.trans ?_⟩
      rw [state_db_objects_cached entry]
      cases held : db.newKeyCache.find keyedShorthash other with
      | none => rfl
      | some object => exact (apart other object held).2
    · rw [NewKeyCache.find_place_other same] at found
      exact apart other cached found

theorem state_db_push_objects {ids : CallIds} {delta : StorageDelta} {answer : Option DeltaRewind}
    (applied : db.tryApplyDelta cryptoShorthash keyedShorthash ids key delta =
      .ok (answer, after)) :
    ∃ changed, (db.objects keyedShorthash key).tryAddDelta cryptoShorthash ids delta =
        .ok (answer, changed) ∧ ObjectCall keyedShorthash key changed db after := by
  unfold StateDB.tryApplyDelta at applied
  cases entry : db.stateDb key with
  | none =>
      rw [entry] at applied
      obtain ⟨⟨_, cache⟩, reserved, same⟩ := bind_ok_iff.mp applied
      cases same
      unfold NewKeyCache.tryReserveDelta at reserved
      split_ifs at reserved
      obtain ⟨⟨_, changed⟩, returned, same⟩ := bind_ok_iff.mp reserved
      cases same
      rw [state_db_objects_cached entry]
      exact ⟨changed, returned, cache_call entry true⟩
  | some object =>
      rw [entry] at applied
      obtain ⟨⟨_, changed⟩, returned, same⟩ := bind_ok_iff.mp applied
      cases same
      rw [state_db_objects_entry entry]
      exact ⟨changed, returned, entry_call entry true⟩

theorem state_db_through_objects {call : RevertableObject → Except Fault RevertableObject}
    (through : db.throughRewind keyedShorthash key call = .ok after) :
    ∃ changed, call (db.objects keyedShorthash key) = .ok changed ∧
      ObjectCall keyedShorthash key changed db after := by
  unfold StateDB.throughRewind at through
  cases entry : db.stateDb key with
  | none =>
      rw [entry] at through
      simp only at through
      rw [state_db_objects_cached entry]
      cases cached : db.newKeyCache.find keyedShorthash key with
      | none =>
          rw [cached] at through
          cases through
      | some object =>
          rw [cached] at through
          obtain ⟨changed, returned, same⟩ := bind_ok_iff.mp through
          cases same
          exact ⟨changed, returned, cache_call entry _⟩
  | some object =>
      rw [entry] at through
      obtain ⟨changed, returned, same⟩ := bind_ok_iff.mp through
      cases same
      rw [state_db_objects_entry entry]
      exact ⟨changed, returned, entry_call entry _⟩

theorem fresh_commit_round : ∃ changed, RevertableObject.fresh.commitRound = .ok changed ∧
    changed.getCommittedObject = none := ⟨_, rfl, rfl⟩

theorem update_key_ends (updated : db.updateKey keyedShorthash key = .ok after) :
    (∃ changed, (db.objects keyedShorthash key).commitRound = .ok changed ∧
      Resumes changed ((after.stateDb key).getD .fresh)) ∧
    (∀ other, other ≠ key → after.stateDb other = db.stateDb other ∧
      after.objects keyedShorthash other = db.objects keyedShorthash other) := by
  unfold StateDB.updateKey at updated
  cases entry : db.stateDb key with
  | some object =>
      rw [entry] at updated
      obtain ⟨changed, round, same⟩ := bind_ok_iff.mp updated
      cases same
      rw [state_db_objects_entry entry]
      constructor
      · refine ⟨changed, round, ?_⟩
        simp only [Function.update_self]
        exact resumes_left changed
      · intro other different
        simp only [StateDB.objects, Function.update_of_ne different, true_and]
  | none =>
      rw [entry] at updated
      obtain ⟨⟨newObj, cache⟩, got, same⟩ := bind_ok_iff.mp updated
      cases same
      rw [state_db_objects_cached entry]
      unfold NewKeyCache.commitAndGet at got
      split_ifs at got
      cases cached : db.newKeyCache.find keyedShorthash key with
      | none =>
          rw [cached] at got
          cases got
          constructor
          · obtain ⟨changed, round, uncommitted⟩ := fresh_commit_round
            refine ⟨changed, round, ?_⟩
            simp only [Function.update_self]
            exact resumes_fresh uncommitted
          · intro other different
            simp only [StateDB.objects, Function.update_of_ne different, true_and]
      | some object =>
          rw [cached] at got
          obtain ⟨changed, round, same⟩ := bind_ok_iff.mp got
          cases same
          constructor
          · refine ⟨changed, round, ?_⟩
            simp only [Function.update_self]
            cases stored : changed.getCommittedObject with
            | none => exact resumes_fresh stored
            | some committed =>
                have again : RevertableObject.onBase changed.getCommittedObject =
                    .ofCommitted committed := by
                  rw [stored]
                  rfl
                rw [Option.map_some, Option.getD_some, ← again]
                exact .reloaded
          · intro other different
            simp only [StateDB.objects, Function.update_of_ne different,
              NewKeyCache.find_place_other different, true_and]

theorem update_keys_ends (distinct : keys.Nodup)
    (updated : db.updateKeys keyedShorthash keys = .ok after) :
    (∀ key ∈ keys, ∃ changed, (db.objects keyedShorthash key).commitRound = .ok changed ∧
      Resumes changed ((after.stateDb key).getD .fresh)) ∧
    ∀ key, key ∉ keys → after.stateDb key = db.stateDb key := by
  induction keys generalizing db with
  | nil =>
      cases updated
      exact ⟨fun key member => absurd member List.not_mem_nil, fun key _ => rfl⟩
  | cons first rest induction =>
      obtain ⟨absent, later⟩ := List.nodup_cons.mp distinct
      unfold StateDB.updateKeys at updated
      rw [List.foldlM_cons] at updated
      obtain ⟨middle, now, rest⟩ := bind_ok_iff.mp updated
      obtain ⟨own, others⟩ := update_key_ends now
      obtain ⟨inside, outside⟩ := induction later rest
      constructor
      · intro key member
        rcases List.mem_cons.mp member with rfl | tail
        · rw [outside key absent]
          exact own
        · have different : key ≠ first := fun same => absent (same ▸ tail)
          rw [← (others key different).2]
          exact inside key tail
      · intro key stranger
        rw [List.mem_cons, not_or] at stranger
        rw [outside key stranger.2, (others key stranger.1).1]

theorem rewind_keys_at (keys : List AddressAndKey) (db : StateDB) (key : AddressAndKey) :
    (keys.foldl (fun db key => db.rewindKey key) db).stateDb key =
      if key ∈ keys then (db.stateDb key).map RevertableObject.rewindRound
      else db.stateDb key := by
  induction keys generalizing db with
  | nil => rfl
  | cons first rest induction =>
      have visited : (db.rewindKey first).stateDb key =
          if key = first then (db.stateDb key).map RevertableObject.rewindRound
          else db.stateDb key := by
        unfold StateDB.rewindKey
        by_cases same : key = first
        · subst same
          rw [if_pos rfl]
          cases entry : db.stateDb key with
          | none => exact entry
          | some object => exact Function.update_self _ _ _
        · rw [if_neg same]
          cases db.stateDb first with
          | none => rfl
          | some object => exact Function.update_of_ne same _ _
      rw [List.foldl_cons, induction, visited]
      by_cases same : key = first
      · have listed : key ∈ first :: rest := same ▸ List.mem_cons_self
        rw [if_pos same, if_pos listed]
        split_ifs
        · rw [Option.map_map]
          rfl
        · rfl
      · have tail : key ∈ first :: rest ↔ key ∈ rest := by
          rw [List.mem_cons, or_iff_right same]
        simp only [if_neg same, tail]

theorem rewind_keys_cache (keys : List AddressAndKey) (db : StateDB) :
    (keys.foldl (fun db key => db.rewindKey key) db).newKeyCache = db.newKeyCache := by
  induction keys generalizing db with
  | nil => rfl
  | cons first rest induction =>
      rw [List.foldl_cons, induction]
      unfold StateDB.rewindKey
      cases db.stateDb first <;> rfl

/-- A key that the pass leaves alone, when the cache is emptied. -/
theorem resumes_uncached (apart : db.CacheApart keyedShorthash) (key : AddressAndKey) :
    Resumes (db.objects keyedShorthash key) ((db.stateDb key).getD .fresh) := by
  cases entry : db.stateDb key with
  | some object =>
      rw [state_db_objects_entry entry]
      exact .same
  | none =>
      rw [state_db_objects_cached entry]
      cases cached : db.newKeyCache.find keyedShorthash key with
      | none => exact .same
      | some object => exact resumes_fresh (apart key object cached).2

theorem cache_apart_empty (newKey : HashKey) (empty : db.newKeyCache = .empty newKey) :
    db.CacheApart keyedShorthash := by
  intro key object found
  rw [empty] at found
  cases found

theorem objects_empty (newKey : HashKey) (empty : db.newKeyCache = .empty newKey)
    (key : AddressAndKey) : db.objects keyedShorthash key = (db.stateDb key).getD .fresh := by
  rw [StateDB.objects, empty]
  rfl

theorem state_db_commit_ends {newKey : HashKey} (apart : db.CacheApart keyedShorthash)
    (distinct : keys.Nodup)
    (returned : db.commitModifications keyedShorthash newKey keys = .ok after) :
    after.CacheApart keyedShorthash ∧
      Ends RevertableObject.commitRound keys (db.objects keyedShorthash)
        (after.objects keyedShorthash) := by
  obtain ⟨updated, pass, same⟩ := bind_ok_iff.mp returned
  obtain ⟨visited, others⟩ := update_keys_ends distinct pass
  have empty : after.newKeyCache = .empty newKey := by
    cases same
    rfl
  have entries : after.stateDb = updated.stateDb := by
    cases same
    rfl
  refine ⟨cache_apart_empty newKey empty, ?_, ?_⟩
  · intro key listed
    obtain ⟨changed, round, resumes⟩ := visited key listed
    rw [objects_empty newKey empty, entries]
    exact ⟨changed, round, resumes⟩
  · intro key unlisted
    rw [objects_empty newKey empty, entries, others key unlisted]
    exact resumes_uncached apart key

theorem state_db_rewind_ends {newKey : HashKey} (apart : db.CacheApart keyedShorthash) :
    (db.rewindModifications newKey keys).CacheApart keyedShorthash ∧
      Ends rewindFinish keys (db.objects keyedShorthash)
        ((db.rewindModifications newKey keys).objects keyedShorthash) := by
  have empty : (db.rewindModifications newKey keys).newKeyCache = .empty newKey := by
    unfold StateDB.rewindModifications
    simp only [rewind_keys_cache]
    rfl
  have entry (key : AddressAndKey) : (db.rewindModifications newKey keys).stateDb key =
      if key ∈ keys then (db.stateDb key).map RevertableObject.rewindRound
      else db.stateDb key := rewind_keys_at keys _ key
  refine ⟨cache_apart_empty newKey empty, ?_, ?_⟩
  · intro key listed
    refine ⟨_, rfl, ?_⟩
    rw [objects_empty newKey empty, entry, if_pos listed]
    cases stored : db.stateDb key with
    | some object =>
        rw [state_db_objects_entry stored]
        exact .same
    | none =>
        apply resumes_fresh
        have kept := resumes_committed (resumes_uncached apart key)
        rw [stored] at kept
        exact kept.symm
  · intro key unlisted
    rw [objects_empty newKey empty, entry, if_neg unlisted]
    exact resumes_uncached apart key

def StateDB.settlingStore (cryptoShorthash : CryptoShorthash) (keyedShorthash : KeyedShorthash) :
    SettlingStore cryptoShorthash (StateDB.store cryptoShorthash keyedShorthash) where
  objects db := db.objects keyedShorthash
  push applied := by
    obtain ⟨changed, returned, call⟩ := state_db_push_objects applied
    exact ⟨changed, returned, call.objects⟩
  through through := by
    obtain ⟨changed, returned, call⟩ := state_db_through_objects through
    exact ⟨changed, returned, call.objects⟩
  Sound db := db.CacheApart keyedShorthash
  push_sound apart applied := by
    obtain ⟨changed, returned, call⟩ := state_db_push_objects applied
    exact call.apart apart (try_add_delta_footing returned)
  through_sound apart footing through := by
    obtain ⟨changed, returned, call⟩ := state_db_through_objects through
    exact call.apart apart (footing _ _ returned)
  committed := by
    intro db apart key
    have same := resumes_committed (resumes_uncached apart key)
    rw [← same]
    simp only [StateDB.store, StateDB.getCommittedValue]
    cases db.stateDb key <;> rfl
  commit apart distinct returned := state_db_commit_ends apart distinct returned
  rewind := by
    intro newKey keys db after apart _ returned
    cases returned
    exact state_db_rewind_ends apart

end StateDB

end Scs
