import Scs.Object.NewHashTable
import Scs.StateDb.StateStore

/-!
# The two ways to store new keys

`StateDB` keeps a new key in its cache and constructs the committed object again
at the end of the block; `StateDBv2` goes on with the object in the trie. Both
show the same as long as the table of a new hash set follows its limit.
-/

namespace Scs

set_option autoImplicit false

open Lockstep

def Inserting (key : AddressAndKey) (held : Rewinds) : Prop :=
  ∃ rewind, (key, rewind) ∈ held ∧ rewind.delta.inserted? ≠ none

/-- The trie entry and the cache entry of a key in one store, and its entry in the
other. -/
inductive EntryMatch (inserting : Prop) :
    Option RevertableObject → Option RevertableObject → Option RevertableObject → Prop
  | absent : EntryMatch inserting none none none
  | created {object : RevertableObject} (base : object.committedBase = none)
      (capacity : object.newHashes.capacity = withExtraBuffer startHashSetSize) :
      EntryMatch inserting none (some object) (some object)
  | stored {left right : RevertableObject} {cached : Option RevertableObject}
      (same : SameButTable left right) (base : left.committedBase ≠ none)
      (shared : inserting → right = left) : EntryMatch inserting (some left) cached (some right)

structure StoresMatch (keyedShorthash : KeyedShorthash) (left : StoreRound StateDB)
    (right : StoreRound StateDBv2) : Prop where
  mode : left.database.newKeyCache.inTryReserveMode = true
  entries : ∀ key, EntryMatch (Inserting key left.held) (left.database.stateDb key)
    (left.database.newKeyCache.find keyedShorthash key) (right.database.stateDb key)
  held : right.held = left.held
  modified : right.modified = left.modified
  listed : ∀ key ∈ left.modified, right.database.stateDb key ≠ none
  distinct : left.modified.Nodup

/-- Every new key that the block commits is dropped again, or its raised limit gives the
table of its hash set the slots that the constructor would. -/
def LimitsFit (keyedShorthash : KeyedShorthash) (operation : StoreOperation)
    (round : StoreRound StateDB) : Prop :=
  match operation with
  | .commitModifications _ keys =>
      ∀ key ∈ keys, round.database.stateDb key = none →
        ∀ object, round.database.newKeyCache.find keyedShorthash key = some object →
          object.SlotsFollow
  | _ => True

-- a quantifier over the listed keys, not over every word of 512 bits
instance (keyedShorthash : KeyedShorthash) (operation : StoreOperation)
    (round : StoreRound StateDB) : Decidable (LimitsFit keyedShorthash operation round) :=
  match operation with
  | .tryApplyDelta _ _ _ | .commit _ | .revert _ _ | .rewindModifications _ _ =>
      inferInstanceAs (Decidable True)
  | .commitModifications _ keys =>
      List.decidableBAll (fun key => round.database.stateDb key = none →
        ∀ object ∈ round.database.newKeyCache.find keyedShorthash key, object.SlotsFollow) keys

section Match

variable {cryptoShorthash : CryptoShorthash} {keyedShorthash : KeyedShorthash}
  {left : StoreRound StateDB} {right : StoreRound StateDBv2}

theorem stores_match_start (hashKey : HashKey) (bases : AddressAndKey → Option StorageObject) :
    StoresMatch keyedShorthash (.start (.ofCommitted hashKey bases))
      (.start (.ofCommitted bases)) where
  mode := rfl
  entries key := by
    simp only [StoreRound.start, StateDB.ofCommitted, StateDBv2.ofCommitted]
    cases bases key with
    | none => exact .absent
    | some stored =>
        exact .stored (same_but_table_refl _) (Option.some_ne_none stored) fun _ => rfl
  held := rfl
  modified := rfl
  listed key member := absurd member List.not_mem_nil
  distinct := List.nodup_nil

theorem EntryMatch.mono {more fewer : Prop} {stored cached other : Option RevertableObject}
    (entry : EntryMatch more stored cached other) (weaker : fewer → more) :
    EntryMatch fewer stored cached other := by
  cases entry with
  | absent => exact .absent
  | created base capacity => exact .created base capacity
  | stored same base shared => exact .stored same base fun inserting => shared (weaker inserting)

/-! ## Calls on one key -/

theorem present_update {trie : StateTrie} {key other : AddressAndKey} (after : RevertableObject)
    (before : trie other ≠ none) : Function.update trie key (some after) other ≠ none := by
  by_cases same : other = key
  · subst same
    rw [Function.update_self]
    exact Option.some_ne_none after
  · rw [Function.update_of_ne same]
    exact before

section Entries

variable {key : AddressAndKey} {held : Rewinds}
  (match_at : ∀ other, EntryMatch (Inserting other left.held) (left.database.stateDb other)
    (left.database.newKeyCache.find keyedShorthash other) (right.database.stateDb other))
  (fewer : ∀ other, other ≠ key → Inserting other held → Inserting other left.held)

include match_at fewer

/-- A new key goes on in the cache of the one store and in the trie of the other. -/
theorem entries_created {object after : RevertableObject} (base : object.committedBase = none)
    (capacity : object.newHashes.capacity = withExtraBuffer startHashSetSize)
    (missing : left.database.stateDb key = none) (kept : SameFooting object after)
    (other : AddressAndKey) :
    EntryMatch (Inserting other held) (left.database.stateDb other)
      ((left.database.newKeyCache.place keyedShorthash key after).find keyedShorthash other)
      (Function.update right.database.stateDb key (some after) other) := by
  by_cases same : other = key
  · subst same
    rw [NewKeyCache.find_place_self, Function.update_self, missing]
    exact .created (kept.committedBase.trans base) (kept.capacity.trans capacity)
  · rw [NewKeyCache.find_place_other same, Function.update_of_ne same]
    exact (match_at other).mono (fewer other same)

theorem entries_stored {first leftAfter rightAfter : RevertableObject}
    (base : first.committedBase ≠ none) (kept : SameFooting first leftAfter)
    (related : SameButTable leftAfter rightAfter)
    (shared : Inserting key held → rightAfter = leftAfter) (other : AddressAndKey) :
    EntryMatch (Inserting other held)
      (Function.update left.database.stateDb key (some leftAfter) other)
      (left.database.newKeyCache.find keyedShorthash other)
      (Function.update right.database.stateDb key (some rightAfter) other) := by
  by_cases same : other = key
  · subst same
    rw [Function.update_self, Function.update_self]
    refine .stored related ?_ shared
    rw [kept.committedBase]
    exact base
  · rw [Function.update_of_ne same, Function.update_of_ne same]
    exact (match_at other).mono (fewer other same)

end Entries

theorem entry_through (key : AddressAndKey)
    (match_at : ∀ other, EntryMatch (Inserting other left.held) (left.database.stateDb other)
      (left.database.newKeyCache.find keyedShorthash other) (right.database.stateDb other))
    (call : RevertableObject → Except Fault RevertableObject)
    (alike : ∀ first second, SameButTable first second →
      (Inserting key left.held → second = first) → Returns SameButTable (call first) (call second))
    (footing : ∀ before after, call before = .ok after → SameFooting before after) :
    Returns
      (fun first second =>
        first.newKeyCache.inTryReserveMode = left.database.newKeyCache.inTryReserveMode ∧
        (∀ other, EntryMatch (Inserting other left.held) (first.stateDb other)
          (first.newKeyCache.find keyedShorthash other) (second.stateDb other)) ∧
        second.stateDb key ≠ none ∧
        ∀ other, right.database.stateDb other ≠ none → second.stateDb other ≠ none)
      (left.database.throughRewind keyedShorthash key call)
      (right.database.throughRewind key call) := by
  have here := match_at key
  have open_before : ∀ other, other ≠ key → Inserting other left.held → Inserting other left.held :=
    fun _ _ inserting => inserting
  have there (after : RevertableObject) :
      Function.update right.database.stateDb key (some after) key ≠ none := by
    rw [Function.update_self]
    exact Option.some_ne_none after
  unfold StateDB.throughRewind StateDBv2.throughRewind StateTrie.throughRewind
  generalize trie : left.database.stateDb key = stored at here
  generalize cache : left.database.newKeyCache.find keyedShorthash key = cached at here
  generalize other_trie : right.database.stateDb key = other at here
  cases here with
  | absent => exact .fault _
  | @created object base capacity =>
      simp only [bind, Except.bind]
      cases returned : call object with
      | error fault => exact .fault fault
      | ok after =>
          have entries := entries_created match_at open_before base capacity trie
            (footing object after returned)
          exact .value ⟨rfl, entries, there after, fun _ => present_update after⟩
  | @stored first second _ same base shared =>
      have results := alike first second same shared
      simp only [bind, Except.bind]
      generalize leftCall : call first = leftResult at results
      generalize rightCall : call second = rightResult at results
      cases results with
      | fault fault => exact .fault fault
      | @value leftAfter rightAfter related =>
          have equal (inserting : Inserting key left.held) : rightAfter = leftAfter := by
            rw [shared inserting, leftCall] at rightCall
            exact (Except.ok.inj rightCall).symm
          have entries := entries_stored match_at open_before base
            (footing first leftAfter leftCall) related equal
          exact .value ⟨rfl, entries, there rightAfter, fun _ => present_update rightAfter⟩

def withAnswer (key : AddressAndKey) : Option DeltaRewind → Rewinds → Rewinds
  | some rewind, held => (key, rewind) :: held
  | none, held => held

theorem inserting_with_answer_other {key other : AddressAndKey} (different : other ≠ key)
    {answer : Option DeltaRewind} {held : Rewinds}
    (inserting : Inserting other (withAnswer key answer held)) : Inserting other held := by
  obtain ⟨rewind, member, inserted⟩ := inserting
  cases answer with
  | none => exact ⟨rewind, member, inserted⟩
  | some granted =>
      rcases List.mem_cons.mp member with same | earlier
      · cases same
        exact absurd rfl different
      · exact ⟨rewind, earlier, inserted⟩

theorem inserting_with_answer {key : AddressAndKey} {answer : Option DeltaRewind} {held : Rewinds}
    (inserting : Inserting key (withAnswer key answer held)) :
    Inserting key held ∨ ∃ rewind, answer = some rewind ∧ rewind.delta.inserted? ≠ none := by
  obtain ⟨rewind, member, inserted⟩ := inserting
  cases answer with
  | none => exact .inl ⟨rewind, member, inserted⟩
  | some granted =>
      rcases List.mem_cons.mp member with same | earlier
      · cases same
        exact .inr ⟨rewind, rfl, inserted⟩
      · exact .inl ⟨rewind, earlier, inserted⟩

/-- Only objects with the same table accept an insertion alike. All other answers depend on
the committed value and on the live deltas. -/
theorem inserted_alike {first second after : RevertableObject} {ids : CallIds}
    {delta : StorageDelta} {rewind : DeltaRewind} (same : SameButTable first second)
    (accepted : first.tryAddDelta cryptoShorthash ids delta = .ok (some rewind, after))
    (inserted : rewind.delta.inserted? ≠ none) : second = first := by
  have own := try_add_delta_own accepted
  cases delta with
  | hashSetInsert hash => exact insert_shares_table same accepted
  | _ =>
      rw [own] at inserted
      exact absurd rfl inserted

variable (cryptoShorthash) in
theorem entry_push (key : AddressAndKey) (ids : CallIds) (delta : StorageDelta)
    (mode : left.database.newKeyCache.inTryReserveMode = true)
    (match_at : ∀ other, EntryMatch (Inserting other left.held) (left.database.stateDb other)
      (left.database.newKeyCache.find keyedShorthash other) (right.database.stateDb other)) :
    Returns
      (fun first second => first.1 = second.1 ∧
        first.2.newKeyCache.inTryReserveMode = true ∧
        (∀ other, EntryMatch (Inserting other (withAnswer key first.1 left.held))
          (first.2.stateDb other) (first.2.newKeyCache.find keyedShorthash other)
          (second.2.stateDb other)) ∧
        ∀ other, right.database.stateDb other ≠ none → second.2.stateDb other ≠ none)
      (left.database.tryApplyDelta cryptoShorthash keyedShorthash ids key delta)
      (right.database.tryApplyDelta cryptoShorthash ids key delta) := by
  have here := match_at key
  unfold StateDB.tryApplyDelta StateDBv2.tryApplyDelta StateTrie.tryApplyDelta
    NewKeyCache.tryReserveDelta StateTrie.insertEntry
  rw [if_pos mode]
  generalize trie : left.database.stateDb key = stored at here
  generalize cache : left.database.newKeyCache.find keyedShorthash key = cached at here
  generalize other_trie : right.database.stateDb key = other at here
  have fewer (answer : Option DeltaRewind) (other : AddressAndKey) (different : other ≠ key) :
      Inserting other (withAnswer key answer left.held) → Inserting other left.held :=
    inserting_with_answer_other different
  cases here with
  | absent =>
      simp only [Option.getD_none, Function.update_self, bind, Except.bind,
        Function.update_idem]
      cases returned : RevertableObject.fresh.tryAddDelta cryptoShorthash ids delta with
      | error fault => exact .fault fault
      | ok outcome =>
          have base : RevertableObject.fresh.committedBase = none := rfl
          have capacity : RevertableObject.fresh.newHashes.capacity =
              withExtraBuffer startHashSetSize := rfl
          have entries := entries_created match_at (fewer outcome.1) base capacity trie
            (try_add_delta_footing returned)
          exact .value ⟨rfl, mode, entries, fun _ => present_update outcome.2⟩
  | @created object base capacity =>
      simp only [Option.getD_some, other_trie, bind, Except.bind]
      cases returned : object.tryAddDelta cryptoShorthash ids delta with
      | error fault => exact .fault fault
      | ok outcome =>
          have entries := entries_created match_at (fewer outcome.1) base capacity trie
            (try_add_delta_footing returned)
          exact .value ⟨rfl, mode, entries, fun _ => present_update outcome.2⟩
  | @stored first second _ same base shared =>
      have results : Returns _ (first.tryAddDelta cryptoShorthash ids delta)
          (second.tryAddDelta cryptoShorthash ids delta) := same_push same ids delta
      simp only [other_trie, bind, Except.bind]
      generalize leftCall : first.tryAddDelta cryptoShorthash ids delta = leftResult at results
      generalize rightCall : second.tryAddDelta cryptoShorthash ids delta = rightResult at results
      cases results with
      | fault fault => exact .fault fault
      | @value leftAfter rightAfter related =>
          have equal (inserting : Inserting key (withAnswer key leftAfter.1 left.held)) :
              rightAfter.2 = leftAfter.2 := by
            have alike : second = first := by
              rcases inserting_with_answer inserting with earlier | ⟨rewind, granted, inserted⟩
              · exact shared earlier
              · have accepted : first.tryAddDelta cryptoShorthash ids delta =
                    .ok (some rewind, leftAfter.2) := by
                  rw [leftCall, ← granted]
                exact inserted_alike same accepted inserted
            rw [alike, leftCall] at rightCall
            exact congrArg Prod.snd (Except.ok.inj rightCall).symm
          have entries := entries_stored match_at (fewer leftAfter.1) base
            (try_add_delta_footing leftCall) related.2 equal
          exact .value ⟨related.1, mode, entries, fun _ => present_update rightAfter.2⟩

def ShownAlike (keyedShorthash : KeyedShorthash)
    (first : StoreObservation × Option (StoreRound StateDB))
    (second : StoreObservation × Option (StoreRound StateDBv2)) : Prop :=
  first.1 = second.1 ∧ Option.Rel (StoresMatch keyedShorthash) first.2 second.2

theorem push_alike (states : StoresMatch keyedShorthash left right) (ids : CallIds)
    (key : AddressAndKey) (delta : StorageDelta) :
    ShownAlike keyedShorthash
      (left.perform (StateDB.store cryptoShorthash keyedShorthash) cryptoShorthash
        (.tryApplyDelta ids key delta))
      (right.perform (StateDBv2.store cryptoShorthash) cryptoShorthash
        (.tryApplyDelta ids key delta)) := by
  have results := entry_push cryptoShorthash key ids delta
    states.mode states.entries
  simp only [StoreRound.perform, StateDB.store, StateDBv2.store]
  generalize left.database.tryApplyDelta cryptoShorthash keyedShorthash ids key delta = first
    at results
  generalize right.database.tryApplyDelta cryptoShorthash ids key delta = second at results
  cases results with
  | fault fault => exact ⟨rfl, .none⟩
  | @value leftAfter rightAfter related =>
      obtain ⟨answer, leftDatabase⟩ := leftAfter
      obtain ⟨_, rightDatabase⟩ := rightAfter
      obtain ⟨rfl, mode, entries, present⟩ := related
      have listed := fun other member => present other (states.listed other member)
      cases answer with
      | none =>
          exact ⟨rfl, .some ⟨mode, entries, states.held, states.modified, listed,
            states.distinct⟩⟩
      | some rewind =>
          exact ⟨rfl, .some ⟨mode, entries, congrArg (List.cons (key, rewind)) states.held,
            states.modified, listed, states.distinct⟩⟩

theorem held_alike (states : StoresMatch keyedShorthash left right) (position : Nat)
    (modifies : Bool) (call : DeltaRewind → RevertableObject → Except Fault RevertableObject)
    (alike : ∀ rewind first second, SameButTable first second →
      (rewind.delta.inserted? ≠ none → second = first) →
        Returns SameButTable (call rewind first) (call rewind second))
    (footing : ∀ rewind before after, call rewind before = .ok after →
      SameFooting before after) :
    ShownAlike keyedShorthash
      (left.throughHeld (StateDB.store cryptoShorthash keyedShorthash) position modifies call)
      (right.throughHeld (StateDBv2.store cryptoShorthash) position modifies call) := by
  unfold StoreRound.throughHeld
  rw [states.held]
  cases found : left.held[position]? with
  | none => exact ⟨rfl, .some states⟩
  | some entry =>
      obtain ⟨key, rewind⟩ := entry
      have member := List.mem_of_getElem? found
      have results := entry_through key states.entries (call rewind)
        (fun first second same shared => alike rewind first second same fun inserted =>
          shared ⟨rewind, member, inserted⟩) (footing rewind)
      simp only [StateDB.store, StateDBv2.store]
      generalize left.database.throughRewind keyedShorthash key (call rewind) = first at results
      generalize right.database.throughRewind key (call rewind) = second at results
      cases results with
      | fault fault => exact ⟨rfl, .none⟩
      | @value leftAfter rightAfter related =>
          obtain ⟨mode, entries, here, present⟩ := related
          refine ⟨rfl, .some
            { mode := mode.trans states.mode
              entries := fun other => (entries other).mono fun inserting => ?_
              held := rfl
              modified := ?_
              listed := ?_
              distinct := ?_ }⟩
          · obtain ⟨open', within, inserted⟩ := inserting
            exact ⟨open', List.mem_of_mem_eraseIdx within, inserted⟩
          · simp only [states.modified]
          · intro other listed
            cases modifies with
            | false => exact present other (states.listed other listed)
            | true =>
                rcases List.mem_insert_iff.mp listed with same | before
                · rw [same]
                  exact here
                · exact present other (states.listed other before)
          · cases modifies with
            | false => exact states.distinct
            | true => exact states.distinct.insert

theorem commit_alike (states : StoresMatch keyedShorthash left right) (position : Nat) :
    ShownAlike keyedShorthash
      (left.perform (StateDB.store cryptoShorthash keyedShorthash) cryptoShorthash
        (.commit position))
      (right.perform (StateDBv2.store cryptoShorthash) cryptoShorthash (.commit position)) := by
  apply held_alike states
  · intro rewind first second same _
    exact same_commit same rewind
  · intro rewind before after returned
    exact commit_footing returned

theorem revert_alike (states : StoresMatch keyedShorthash left right) (position : Nat)
    (newId : UniqueId) :
    ShownAlike keyedShorthash
      (left.perform (StateDB.store cryptoShorthash keyedShorthash) cryptoShorthash
        (.revert position newId))
      (right.perform (StateDBv2.store cryptoShorthash) cryptoShorthash
        (.revert position newId)) := by
  apply held_alike states
  · intro rewind first second same shared
    by_cases plain : rewind.delta.inserted? = none
    · exact same_destroy same newId plain
    · rw [shared plain]
      exact returns_refl same_but_table_refl _
  · intro rewind before after returned
    exact destroy_footing returned

/-! ## The end of a block -/

/-- The trie entries of a key at the end of a block, before the one trie drops what
is not committed. -/
inductive SettledMatch : Option RevertableObject → Option RevertableObject → Prop
  | gone {other : Option RevertableObject}
      (base : ∀ object, other = some object → object.committedBase = none) :
      SettledMatch none other
  | stored {left right : RevertableObject} (same : SameButTable left right)
      (base : left.committedBase ≠ none) : SettledMatch (some left) (some right)

theorem EntryMatch.settled {inserting : Prop} {stored cached other : Option RevertableObject}
    (entry : EntryMatch inserting stored cached other) : SettledMatch stored other := by
  cases entry with
  | absent =>
      apply SettledMatch.gone
      intro object impossible
      cases impossible
  | created base capacity =>
      apply SettledMatch.gone
      rintro _ ⟨⟩
      exact base
  | stored same base shared => exact .stored same base

theorem normalize_dropped {trie : StateTrie} {key : AddressAndKey}
    (base : ∀ object, trie key = some object → object.committedBase = none) :
    trie.normalize key = none := by
  unfold StateTrie.normalize
  cases held : trie key with
  | none => rfl
  | some object =>
      rw [Option.filter_some, RevertableObject.getCommittedObject, base object held]
      rfl

theorem normalize_kept {trie : StateTrie} {key : AddressAndKey} {object : RevertableObject}
    (held : trie key = some object) (base : object.committedBase ≠ none) :
    trie.normalize key = some object := by
  unfold StateTrie.normalize
  rw [held, Option.filter_some, RevertableObject.getCommittedObject,
    Option.isSome_iff_ne_none.mpr base]
  rfl

/-- The next block starts from stores that match and that show the same. -/
theorem settled_start {database : StateDB} {trie : StateTrie} (newKey : HashKey)
    (cleared : database.newKeyCache = .empty newKey)
    (settled : ∀ key, SettledMatch (database.stateDb key) (trie key)) :
    (∀ key, database.getCommittedValue key = trie.normalize.getCommittedValue key) ∧
      StoresMatch keyedShorthash (.start database) (.start { stateDb := trie.normalize }) := by
  constructor
  · intro key
    have entry := settled key
    unfold StateDB.getCommittedValue StateTrie.getCommittedValue
    generalize database.stateDb key = stored at entry
    generalize held : trie key = other at entry
    cases entry with
    | gone base =>
        rw [normalize_dropped (held ▸ base)]
    | @stored first second same base =>
        rw [normalize_kept held (same.committed_base ▸ base)]
        exact same.committed_base.symm
  · refine
      { mode := ?_
        entries := ?_
        held := rfl
        modified := rfl
        listed := fun key member => absurd member List.not_mem_nil
        distinct := List.nodup_nil }
    · rw [StoreRound.start, cleared]
      rfl
    · intro key
      have entry := settled key
      simp only [StoreRound.start, cleared, NewKeyCache.find_empty]
      generalize database.stateDb key = stored at entry
      generalize held : trie key = other at entry
      cases entry with
      | gone base =>
          rw [normalize_dropped (held ▸ base)]
          exact .absent
      | @stored first second same base =>
          rw [normalize_kept held (same.committed_base ▸ base)]
          apply EntryMatch.stored same base
          rintro ⟨rewind, member, _⟩
          exact absurd member List.not_mem_nil

def AwaitsUpdate (keyedShorthash : KeyedShorthash) (database : StateDB) (trie : StateTrie)
    (key : AddressAndKey) : Prop :=
  EntryMatch False (database.stateDb key) (database.newKeyCache.find keyedShorthash key)
      (trie key) ∧
    trie key ≠ none ∧
    (database.stateDb key = none → ∀ object,
      database.newKeyCache.find keyedShorthash key = some object → object.SlotsFollow)

/-- The two stores differ on one key only from what they were. -/
structure UpdatedAt (keyedShorthash : KeyedShorthash) (key : AddressAndKey)
    (before : StateDB × StateTrie) (database : StateDB) (trie : StateTrie) : Prop where
  mode : database.newKeyCache.inTryReserveMode = before.1.newKeyCache.inTryReserveMode
  settled : SettledMatch (database.stateDb key) (trie key)
  stored : ∀ other, other ≠ key → database.stateDb other = before.1.stateDb other
  cached : ∀ other, other ≠ key → database.newKeyCache.find keyedShorthash other =
    before.1.newKeyCache.find keyedShorthash other
  entries : ∀ other, other ≠ key → trie other = before.2 other

theorem left_after_round {object : RevertableObject} :
    (if object.getCommittedObject.isNone then none else some object) =
      if object.committedBase = none then none else some object := by
  unfold RevertableObject.getCommittedObject
  cases object.committedBase <;> rfl

theorem update_key_settles {database : StateDB} {trie : StateTrie} {key : AddressAndKey}
    (mode : database.newKeyCache.inTryReserveMode = false)
    (pending : AwaitsUpdate keyedShorthash database trie key) :
    Returns (UpdatedAt keyedShorthash key (database, trie))
      (database.updateKey keyedShorthash key) (trie.updateKey key) := by
  obtain ⟨entry, listed, fits⟩ := pending
  unfold StateDB.updateKey StateTrie.updateKey NewKeyCache.commitAndGet
  rw [mode]
  generalize stored_at : database.stateDb key = stored at entry fits
  generalize cached_at : database.newKeyCache.find keyedShorthash key = cached at entry fits
  generalize other_at : trie key = other at entry listed
  cases entry with
  | absent => exact absurd rfl listed
  | @created object base capacity =>
      simp only [bind, Except.bind, Bool.false_eq_true, if_false]
      cases returned : object.commitRound with
      | error fault => exact .fault fault
      | ok after =>
          refine .value
            { mode := mode.symm ▸ mode
              settled := ?_
              stored := fun other different => Function.update_of_ne different _ _
              cached := fun other different => NewKeyCache.find_place_other different _ _
              entries := fun other different => Function.update_of_ne different _ _ }
          simp only [Function.update_self, left_after_round]
          rw [RevertableObject.getCommittedObject]
          split_ifs with deleted
          · rw [deleted]
            apply SettledMatch.gone
            intro kept impossible
            cases impossible
          · obtain ⟨value, committed⟩ := Option.ne_none_iff_exists'.mp deleted
            rw [committed]
            apply SettledMatch.stored
            · exact constructed_again base capacity (fits rfl object rfl) returned committed
            · exact Option.some_ne_none value
  | @stored first second _ same base shared =>
      have results := same_commit_round same
      simp only [bind, Except.bind]
      generalize first.commitRound = leftResult at results
      generalize second.commitRound = rightResult at results
      cases results with
      | fault fault => exact .fault fault
      | @value leftAfter rightAfter related =>
          refine .value
            { mode := rfl
              settled := ?_
              stored := fun other different => Function.update_of_ne different _ _
              cached := fun _ _ => rfl
              entries := fun other different => Function.update_of_ne different _ _ }
          simp only [Function.update_self, left_after_round, related.1]
          split_ifs with deleted
          · apply SettledMatch.gone
            intro kept impossible
            cases impossible
          · exact .stored (related.2 deleted) deleted

theorem update_keys_settle {keys : List AddressAndKey} (distinct : keys.Nodup)
    {database : StateDB} {trie : StateTrie}
    (mode : database.newKeyCache.inTryReserveMode = false)
    (pending : ∀ key ∈ keys, AwaitsUpdate keyedShorthash database trie key)
    (settled : ∀ key, SettledMatch (database.stateDb key) (trie key)) :
    Returns (fun after updated => ∀ key, SettledMatch (after.stateDb key) (updated key))
      (database.updateKeys keyedShorthash keys) (trie.updateKeys keys) := by
  induction keys generalizing database trie with
  | nil => exact .value settled
  | cons key rest induction =>
      obtain ⟨fresh, distinct⟩ := List.nodup_cons.mp distinct
      unfold StateDB.updateKeys StateTrie.updateKeys
      simp only [List.foldlM_cons]
      apply returns_bind (update_key_settles mode (pending key List.mem_cons_self))
      intro after updated visited
      apply induction distinct (visited.mode.trans mode)
      · intro other member
        have different : other ≠ key := by
          rintro rfl
          exact fresh member
        have waiting := pending other (List.mem_cons_of_mem key member)
        unfold AwaitsUpdate at waiting ⊢
        rw [visited.stored other different, visited.cached other different,
          visited.entries other different]
        exact waiting
      · intro other
        by_cases same : other = key
        · rw [same]
          exact visited.settled
        · rw [visited.stored other same, visited.entries other same]
          exact settled other

theorem rewind_key_settles {database : StateDB} {trie : StateTrie} {key : AddressAndKey}
    (listed : trie key ≠ none)
    (settled : ∀ other, SettledMatch (database.stateDb other) (trie other)) :
    ∃ rewound, trie.rewindKey key = .ok rewound ∧
      (database.rewindKey key).newKeyCache = database.newKeyCache ∧
      (∀ other, trie other ≠ none → rewound other ≠ none) ∧
      ∀ other, SettledMatch ((database.rewindKey key).stateDb other) (rewound other) := by
  have entry := settled key
  unfold StateDB.rewindKey StateTrie.rewindKey
  obtain ⟨object, held⟩ := Option.ne_none_iff_exists'.mp listed
  rw [held] at entry ⊢
  have present (other : AddressAndKey) (before : trie other ≠ none) :
      Function.update trie key (some object.rewindRound) other ≠ none := by
    by_cases same : other = key
    · rw [same, Function.update_self]
      exact Option.some_ne_none _
    · rw [Function.update_of_ne same]
      exact before
  generalize stored_at : database.stateDb key = stored at entry
  cases entry with
  | gone base =>
      refine ⟨_, rfl, rfl, present, ?_⟩
      intro other
      by_cases same : other = key
      · rw [same, Function.update_self, stored_at]
        apply SettledMatch.gone
        rintro _ ⟨⟩
        exact base object rfl
      · rw [Function.update_of_ne same]
        exact settled other
  | @stored first _ same base =>
      refine ⟨_, rfl, rfl, present, ?_⟩
      intro other
      by_cases here : other = key
      · simp only [here, Function.update_self]
        exact .stored (same_rewind_round same) base
      · simp only [Function.update_of_ne here]
        exact settled other

theorem rewind_keys_settle {keys : List AddressAndKey} (database : StateDB) {trie : StateTrie}
    (listed : ∀ key ∈ keys, trie key ≠ none)
    (settled : ∀ key, SettledMatch (database.stateDb key) (trie key)) :
    ∃ rewound, trie.rewindKeys keys = .ok rewound ∧
      (keys.foldl (fun db key => db.rewindKey key) database).newKeyCache = database.newKeyCache ∧
      ∀ key, SettledMatch
        ((keys.foldl (fun db key => db.rewindKey key) database).stateDb key) (rewound key) := by
  induction keys generalizing database trie with
  | nil => exact ⟨trie, rfl, rfl, settled⟩
  | cons key rest induction =>
      obtain ⟨middle, visited, cache, present, settled⟩ :=
        rewind_key_settles (listed key List.mem_cons_self) settled
      obtain ⟨rewound, returned, kept, final⟩ := induction _
        (fun other member => present other (listed other (List.mem_cons_of_mem key member))) settled
      refine ⟨rewound, ?_, kept.trans cache, final⟩
      unfold StateTrie.rewindKeys
      rw [List.foldlM_cons, visited]
      exact returned

theorem ready_other (states : StoresMatch keyedShorthash left right) (keys : List AddressAndKey) :
    right.Ready keys ↔ left.Ready keys := by
  unfold StoreRound.Ready
  rw [states.held, states.modified]

/-- Blocks that end alike show the same and leave stores that match. -/
theorem finish_alike (states : StoresMatch keyedShorthash left right)
    (keys : List AddressAndKey) {leftEnded : Except Fault StateDB}
    {rightEnded : Except Fault StateDBv2}
    (ended : left.Ready keys → Returns
      (fun database other => (∀ key, database.getCommittedValue key = other.getCommittedValue key) ∧
        StoresMatch keyedShorthash (.start database) (.start other)) leftEnded rightEnded) :
    ShownAlike keyedShorthash
      (left.finish (StateDB.store cryptoShorthash keyedShorthash) keys leftEnded)
      (right.finish (StateDBv2.store cryptoShorthash) keys rightEnded) := by
  unfold StoreRound.finish
  by_cases ready : left.Ready keys
  · rw [if_pos ready, if_pos ((ready_other states keys).mpr ready)]
    cases ended ready with
    | fault fault => exact ⟨rfl, .none⟩
    | value related =>
        exact ⟨congrArg StoreObservation.boundary (funext related.1), .some related.2⟩
  · rw [if_neg ready, if_neg fun other => ready ((ready_other states keys).mp other)]
    exact ⟨rfl, .some states⟩

theorem commit_modifications_alike (states : StoresMatch keyedShorthash left right)
    (newKey : HashKey) (keys : List AddressAndKey)
    (fits : LimitsFit keyedShorthash (.commitModifications newKey keys) left) :
    ShownAlike keyedShorthash
      (left.perform (StateDB.store cryptoShorthash keyedShorthash) cryptoShorthash
        (.commitModifications newKey keys))
      (right.perform (StateDBv2.store cryptoShorthash) cryptoShorthash
        (.commitModifications newKey keys)) := by
  apply finish_alike states
  rintro ⟨_, listed⟩
  have distinct : keys.Nodup := (listed.nodup_iff).mpr states.distinct
  have entries (key : AddressAndKey) : EntryMatch False (left.database.stateDb key)
      (left.database.newKeyCache.find keyedShorthash key) (right.database.stateDb key) :=
    (states.entries key).mono False.elim
  have passed : right.database.commitModifications keys =
      right.database.stateDb.updateKeys keys >>= fun updated =>
        .ok { stateDb := updated.normalize } := by
    unfold StateDBv2.commitModifications StateTrie.commitModifications
    rw [bind_assoc]
    rfl
  simp only [StateDB.store, StateDBv2.store, passed, StateDB.commitModifications]
  have waiting (key : AddressAndKey) (member : key ∈ keys) :
      AwaitsUpdate keyedShorthash
        { left.database with newKeyCache := left.database.newKeyCache.finalizeModifications }
        right.database.stateDb key :=
    ⟨entries key, states.listed key (listed.subset member), fits key member⟩
  apply returns_bind (update_keys_settle distinct rfl waiting fun key => (entries key).settled)
  intro after updated settled
  exact .value (settled_start newKey rfl settled)

theorem rewind_modifications_alike (states : StoresMatch keyedShorthash left right)
    (newKey : HashKey) (keys : List AddressAndKey) :
    ShownAlike keyedShorthash
      (left.perform (StateDB.store cryptoShorthash keyedShorthash) cryptoShorthash
        (.rewindModifications newKey keys))
      (right.perform (StateDBv2.store cryptoShorthash) cryptoShorthash
        (.rewindModifications newKey keys)) := by
  apply finish_alike states
  rintro ⟨_, listed⟩
  obtain ⟨rewound, returned, cache, settled⟩ := rewind_keys_settle
    { left.database with newKeyCache := left.database.newKeyCache.clearForNextBlock newKey }
    (fun key member => states.listed key (listed.subset member))
    (fun key => (states.entries key).settled)
  simp only [StateDB.store, StateDBv2.store, StateDBv2.rewindModifications,
    StateTrie.rewindModifications, returned, bind, Except.bind]
  exact .value (settled_start newKey cache settled)

/-! ## Whole runs -/

theorem perform_alike (states : StoresMatch keyedShorthash left right)
    (operation : StoreOperation) (fits : LimitsFit keyedShorthash operation left) :
    ShownAlike keyedShorthash
      (left.perform (StateDB.store cryptoShorthash keyedShorthash) cryptoShorthash operation)
      (right.perform (StateDBv2.store cryptoShorthash) cryptoShorthash operation) := by
  cases operation with
  | tryApplyDelta ids key delta => exact push_alike states ids key delta
  | commit position => exact commit_alike states position
  | revert position newId => exact revert_alike states position newId
  | commitModifications newKey keys => exact commit_modifications_alike states newKey keys fits
  | rewindModifications newKey keys => exact rewind_modifications_alike states newKey keys

/-- Stores that start from the same committed contents answer alike over every run
of blocks in which the tables of new hash sets follow their limits. -/
theorem stores_equivalent (cryptoShorthash : CryptoShorthash) (keyedShorthash : KeyedShorthash)
    (hashKey : HashKey) (bases : AddressAndKey → Option StorageObject)
    (operations : List StoreOperation)
    (fits : Along
      (StoreRound.perform (StateDB.store cryptoShorthash keyedShorthash) cryptoShorthash)
      (LimitsFit keyedShorthash) operations (StoreRound.start (.ofCommitted hashKey bases))) :
    observe (StoreRound.perform (StateDB.store cryptoShorthash keyedShorthash) cryptoShorthash)
        operations (StoreRound.start (.ofCommitted hashKey bases)) =
      observe (StoreRound.perform (StateDBv2.store cryptoShorthash) cryptoShorthash)
        operations (StoreRound.start (.ofCommitted bases)) := by
  apply observe_along (StoresMatch keyedShorthash) _ fits (stores_match_start hashKey bases)
  intro left right operation states allowed
  exact perform_alike states operation allowed

end Match

/-- A new hash set with a raised limit, and hashes for it in the next block. -/
def raisedThenFilled (limitIncrease : UInt32) (count : Nat) : List StoreOperation :=
  [.tryApplyDelta .first 7 (.hashSetIncreaseLimit limitIncrease), .commit 0,
    .commitModifications 1 [7]] ++
  (List.range count).map fun number =>
    .tryApplyDelta .first 7 (.hashSetInsert ⟨BitVec.ofNat 256 number, 0⟩)

theorem stores_equivalent_raised :
    observe (StoreRound.perform (StateDB.store (fun _ => 0) fun _ _ => 0) fun _ => 0)
        (raisedThenFilled 6 2) (StoreRound.start (.ofCommitted 0 fun _ => none)) =
      observe (StoreRound.perform (StateDBv2.store fun _ => 0) fun _ => 0)
        (raisedThenFilled 6 2) (StoreRound.start (.ofCommitted fun _ => none)) := by
  apply stores_equivalent
  decide +kernel

def StoreObservation.isAccepted : StoreObservation → Bool
  | .answered accepted => accepted
  | _ => false

/-- A limit that is raised past 32 bits leaves the table of the one store small. -/
theorem stores_differ :
    ¬ ∀ (cryptoShorthash : CryptoShorthash) (keyedShorthash : KeyedShorthash) (hashKey : HashKey)
      (bases : AddressAndKey → Option StorageObject) (operations : List StoreOperation),
      observe (StoreRound.perform (StateDB.store cryptoShorthash keyedShorthash) cryptoShorthash)
          operations (StoreRound.start (.ofCommitted hashKey bases)) =
        observe (StoreRound.perform (StateDBv2.store cryptoShorthash) cryptoShorthash)
          operations (StoreRound.start (.ofCommitted bases)) := by
  intro equivalent
  have same := congrArg (List.countP StoreObservation.isAccepted)
    (equivalent (fun _ => 0) (fun _ _ => 0) 0 (fun _ => none) (raisedThenFilled (0 - 64) 77))
  have small : (observe (StoreRound.perform (StateDBv2.store fun _ => 0) fun _ => 0)
      (raisedThenFilled (0 - 64) 77) (StoreRound.start (.ofCommitted fun _ => none))).countP
        StoreObservation.isAccepted = 77 := by
    decide +kernel
  have large : (observe (StoreRound.perform (StateDB.store (fun _ => 0) fun _ _ => 0) fun _ => 0)
      (raisedThenFilled (0 - 64) 77) (StoreRound.start (.ofCommitted 0 fun _ => none))).countP
        StoreObservation.isAccepted = 78 := by
    decide +kernel
  omega

end Scs
