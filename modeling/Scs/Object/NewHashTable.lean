import Scs.Library.Lockstep
import Scs.Object.Round

/-!
# Objects that differ in their new-hash table

Only a hash set reads the table of an object. An object over a committed value
of another type answers alike whatever its table holds.
-/

namespace Scs

set_option autoImplicit false

open Ledger Lockstep Words

def Tableless (object : RevertableObject) : Prop :=
  ∃ stored, object.committedBase = some stored ∧ stored.body.type ≠ .hashSet ∧
    object.baseObj.requiredType = some stored.body.type

structure SameButTable (left right : RevertableObject) : Prop where
  rest : right = { left with newHashes := right.newHashes }
  table : right.newHashes = left.newHashes ∨ Tableless left

section Calls

variable {cryptoShorthash : CryptoShorthash} {object left right : RevertableObject}
  {delta : StorageDelta}

theorem same_but_table_refl (object : RevertableObject) : SameButTable object object :=
  ⟨rfl, .inl rfl⟩

theorem same_but_table_eq (same : SameButTable left right)
    (table : right.newHashes = left.newHashes) : right = left := by
  rw [same.rest, table]

theorem SameButTable.committed_base (same : SameButTable left right) :
    right.committedBase = left.committedBase := by
  rw [same.rest]

/-- A call that agrees on a value reads the table only to reserve. -/
theorem reserve_new_hashes (ids : CallIds) (delta : StorageDelta) (value : StorageDeltaClass)
    (attempt : RevertableObject → Except Fault (Option RevertableObject))
    (object : RevertableObject) (table : AtomicSet)
    (blind : ∀ baseObj, attempt { object with baseObj := baseObj, newHashes := table } =
      (attempt { object with baseObj := baseObj }).map
        (Option.map fun after => { after with newHashes := table })) :
    RevertableObject.reserve ids delta value attempt { object with newHashes := table } =
      (RevertableObject.reserve ids delta value attempt object).map fun outcome =>
        (outcome.1, { outcome.2 with newHashes := table }) := by
  unfold RevertableObject.reserve
  simp only [bind, Except.bind]
  cases object.baseObj.trySet ids.set value with
  | error fault => rfl
  | ok outcome =>
      obtain ⟨answer, baseObj⟩ := outcome
      cases answer with
      | none => rfl
      | some rewind =>
          simp only [blind baseObj]
          cases attempt { object with baseObj := baseObj } with
          | error fault => rfl
          | ok reserved =>
              cases reserved with
              | some after => rfl
              | none =>
                  simp only [Except.map, Option.map]
                  cases rewind.destroy ids.undo baseObj <;> rfl

theorem try_add_delta_new_hashes (ids : CallIds) (plain : delta.inserted? = none)
    (object : RevertableObject) (table : AtomicSet) :
    ({ object with newHashes := table } : RevertableObject).tryAddDelta cryptoShorthash ids delta =
      (object.tryAddDelta cryptoShorthash ids delta).map fun outcome =>
        (outcome.1, { outcome.2 with newHashes := table }) := by
  cases delta with
  | hashSetInsert hash => cases plain
  | deleteLast => rfl
  | nonnegativeInt64SetAdd setAdd =>
      apply reserve_new_hashes
      intro baseObj
      simp only [RevertableObject.admitSetAdd]
      split_ifs <;> simp only [Except.map, Option.map]
  | rawMemoryWrite data => exact reserve_new_hashes _ _ _ _ _ _ fun _ => rfl
  | hashSetIncreaseLimit limitIncrease => exact reserve_new_hashes _ _ _ _ _ _ fun _ => rfl
  | hashSetClear threshold => exact reserve_new_hashes _ _ _ _ _ _ fun _ => rfl
  | assetObjectAdd assetDelta =>
      apply reserve_new_hashes
      intro baseObj
      simp only [RevertableObject.admitAssetAdd]
      split_ifs
      · cases tryAddUint64 assetDelta object.availableAsset <;> rfl
      · cases tryAddUint64 assetDelta object.availableAssetUpperbound <;> rfl
  | _ => rfl

theorem tableless_refuses (tableless : Tableless object) (ids : CallIds) (hash : HashSetEntry) :
    object.tryAddDelta cryptoShorthash ids (.hashSetInsert hash) = .ok (none, object) := by
  obtain ⟨stored, _, plain, required⟩ := tableless
  have refused : object.baseObj.trySet ids.set .hashSet = .ok (none, object.baseObj) := by
    unfold RevertableBaseObject.trySet
    rw [required]
    exact if_pos (Ne.symm plain)
  simp only [RevertableObject.tryAddDelta, RevertableObject.reserve, refused, bind, Except.bind]

theorem try_set_required_type {baseObj after : RevertableBaseObject} {newId : UniqueId}
    {value : StorageDeltaClass} {answer : Option Rewind}
    (returned : baseObj.trySet newId value = .ok (answer, after)) :
    after.requiredType = baseObj.requiredType := by
  have attempt (finished : whileTrue (baseObj.trySetAttempt newId value) = .ok (answer, after)) :
      after.requiredType = baseObj.requiredType := by
    unfold RevertableBaseObject.trySetAttempt at finished
    cases current : baseObj.obj with
    | none =>
        rw [current] at finished
        simp only at finished
        split_ifs at finished
        · cases finished
        · cases finished
        · cases finished
          rfl
    | some held =>
        rw [current] at finished
        simp only at finished
        split_ifs at finished <;> cases finished <;> rfl
  unfold RevertableBaseObject.trySet at returned
  cases required : baseObj.requiredType with
  | none =>
      rw [required] at returned
      exact (attempt returned).trans required
  | some type =>
      rw [required] at returned
      simp only at returned
      split_ifs at returned
      · cases returned
        exact required
      · exact (attempt returned).trans required

theorem revert_required_type {baseObj after : RevertableBaseObject} {newId : UniqueId}
    (returned : baseObj.revert newId = .ok after) : after.requiredType = baseObj.requiredType := by
  unfold RevertableBaseObject.revert RevertableBaseObject.revertAttempt at returned
  simp only at returned
  split_ifs at returned <;> cases returned <;> rfl

theorem destroy_required_type {baseObj after : RevertableBaseObject} {newId : UniqueId}
    {rewind : Rewind} (returned : rewind.destroy newId baseObj = .ok after) :
    after.requiredType = baseObj.requiredType := by
  unfold Rewind.destroy at returned
  split_ifs at returned
  · exact revert_required_type returned
  · cases returned
    rfl

/-- The calls of a round leave the committed object and the required type. -/
structure SameFooting (before after : RevertableObject) : Prop where
  committedBase : after.committedBase = before.committedBase
  requiredType : after.baseObj.requiredType = before.baseObj.requiredType
  capacity : after.newHashes.capacity = before.newHashes.capacity

theorem insert_allocated_capacity (hash : HashSetEntry) (set : AtomicSet) :
    (set.insertAllocated cryptoShorthash hash).2.capacity = set.capacity := by
  unfold AtomicSet.insertAllocated
  split_ifs
  · rfl
  · split <;> rfl

theorem try_insert_capacity {allocated count : ℕ} {hash : HashSetEntry} {answer : Bool}
    {set changed : AtomicSet}
    (returned : set.tryInsert cryptoShorthash allocated hash = .ok (answer, count, changed)) :
    changed.capacity = set.capacity := by
  obtain ⟨given, _, rest⟩ := bind_ok_iff.mp returned
  cases rest
  exact insert_allocated_capacity hash set

theorem erase_capacity {hash : HashSetEntry} {set erased : AtomicSet}
    (returned : set.erase cryptoShorthash hash = .ok erased) : erased.capacity = set.capacity := by
  unfold AtomicSet.erase at returned
  split at returned <;> cases returned
  rfl

theorem reserve_footing {ids : CallIds} {value : StorageDeltaClass}
    {attempt : RevertableObject → Except Fault (Option RevertableObject)}
    (attempted : ∀ before after, attempt before = .ok (some after) → SameFooting before after)
    {answer : Option DeltaRewind} {after : RevertableObject}
    (returned : RevertableObject.reserve ids delta value attempt object = .ok (answer, after)) :
    SameFooting object after := by
  obtain ⟨⟨granted, baseObj⟩, set, rest⟩ := bind_ok_iff.mp returned
  have words := try_set_required_type set
  cases granted with
  | none =>
      cases rest
      exact ⟨rfl, words, rfl⟩
  | some rewind =>
      obtain ⟨reserved, tried, finished⟩ := bind_ok_iff.mp rest
      cases reserved with
      | some kept =>
          cases finished
          have footing := attempted _ _ tried
          exact ⟨footing.committedBase, footing.requiredType.trans words, footing.capacity⟩
      | none =>
          obtain ⟨undone, destroyed, last⟩ := bind_ok_iff.mp finished
          cases last
          exact ⟨rfl, (destroy_required_type destroyed).trans words, rfl⟩

theorem try_add_delta_footing {ids : CallIds} {answer : Option DeltaRewind}
    {after : RevertableObject}
    (returned : object.tryAddDelta cryptoShorthash ids delta = .ok (answer, after)) :
    SameFooting object after := by
  cases delta with
  | deleteLast =>
      cases returned
      exact ⟨rfl, rfl, rfl⟩
  | nonnegativeInt64SetAdd setAdd =>
      apply reserve_footing _ returned
      intro before after admitted
      simp only [RevertableObject.admitSetAdd] at admitted
      split_ifs at admitted <;> cases admitted <;> exact ⟨rfl, rfl, rfl⟩
  | rawMemoryWrite data =>
      apply reserve_footing _ returned
      rintro before _ ⟨⟩
      exact ⟨rfl, rfl, rfl⟩
  | hashSetIncreaseLimit limitIncrease =>
      apply reserve_footing _ returned
      rintro before _ ⟨⟩
      exact ⟨rfl, rfl, rfl⟩
  | hashSetClear threshold =>
      apply reserve_footing _ returned
      rintro before _ ⟨⟩
      exact ⟨rfl, rfl, rfl⟩
  | hashSetInsert hash =>
      apply reserve_footing _ returned
      intro before after admitted
      obtain ⟨⟨hashes, maxSize⟩, _, rest⟩ := bind_ok_iff.mp admitted
      simp only at rest
      split_ifs at rest
      · cases rest
      · cases rest
      · obtain ⟨⟨inserted, count, newHashes⟩, tried, last⟩ := bind_ok_iff.mp rest
        simp only at last
        split_ifs at last <;> cases last
        exact ⟨rfl, rfl, try_insert_capacity tried⟩
  | assetObjectAdd assetDelta =>
      apply reserve_footing _ returned
      intro before after admitted
      simp only [RevertableObject.admitAssetAdd] at admitted
      split_ifs at admitted
      · cases added : tryAddUint64 assetDelta before.availableAsset with
        | none =>
            rw [added] at admitted
            cases admitted
        | some amount =>
            rw [added] at admitted
            cases admitted
            exact ⟨rfl, rfl, rfl⟩
      · cases added : tryAddUint64 assetDelta before.availableAssetUpperbound with
        | none =>
            rw [added] at admitted
            cases admitted
        | some amount =>
            rw [added] at admitted
            cases admitted
            exact ⟨rfl, rfl, rfl⟩
  | _ => cases returned

theorem reserve_own {ids : CallIds} {value : StorageDeltaClass}
    {attempt : RevertableObject → Except Fault (Option RevertableObject)} {rewind : DeltaRewind}
    {after : RevertableObject}
    (accepted :
      RevertableObject.reserve ids delta value attempt object = .ok (some rewind, after)) :
    rewind.delta = delta := by
  obtain ⟨⟨granted, baseObj⟩, set, rest⟩ := bind_ok_iff.mp accepted
  cases granted with
  | none => cases rest
  | some base =>
      obtain ⟨reserved, tried, finished⟩ := bind_ok_iff.mp rest
      cases reserved with
      | some kept =>
          cases finished
          rfl
      | none =>
          obtain ⟨undone, destroyed, last⟩ := bind_ok_iff.mp finished
          cases last

theorem try_add_delta_own {ids : CallIds} {rewind : DeltaRewind} {after : RevertableObject}
    (accepted : object.tryAddDelta cryptoShorthash ids delta = .ok (some rewind, after)) :
    rewind.delta = delta := by
  cases delta with
  | deleteLast =>
      cases accepted
      rfl
  | nonnegativeInt64SetAdd setAdd => exact reserve_own accepted
  | rawMemoryWrite data => exact reserve_own accepted
  | hashSetIncreaseLimit limitIncrease => exact reserve_own accepted
  | hashSetClear threshold => exact reserve_own accepted
  | hashSetInsert hash => exact reserve_own accepted
  | assetObjectAdd assetDelta => exact reserve_own accepted
  | _ => cases accepted

theorem commit_footing {rewind : DeltaRewind} {after : RevertableObject}
    (returned : rewind.commit object = .ok after) : SameFooting object after := by
  obtain ⟨committed, done, finished⟩ := bind_ok_iff.mp returned
  cases finished
  have words (base : RevertableBaseObject) :
      (rewind.rewindBase.commit base).requiredType = base.requiredType := by
    unfold Rewind.commit
    split_ifs <;> rfl
  have footing : SameFooting object committed := by
    generalize rewind.delta = delta at done
    unfold RevertableObject.commitDelta at done
    split at done
    all_goals first
      | cases done
        exact ⟨rfl, rfl, rfl⟩
      | cases done
      | split_ifs at done <;> cases done <;> exact ⟨rfl, rfl, rfl⟩
  exact ⟨footing.committedBase, (words _).trans footing.requiredType, footing.capacity⟩

theorem destroy_footing {rewind : DeltaRewind} {newId : UniqueId} {after : RevertableObject}
    (returned : rewind.destroy cryptoShorthash newId object = .ok after) :
    SameFooting object after := by
  obtain ⟨reverted, undone, rest⟩ := bind_ok_iff.mp returned
  obtain ⟨baseObj, destroyed, finished⟩ := bind_ok_iff.mp rest
  cases finished
  have footing : SameFooting object reverted := by
    unfold DeltaRewind.undo at undone
    split_ifs at undone
    · generalize rewind.delta = delta at undone
      cases delta with
      | hashSetInsert hash =>
          obtain ⟨erased, done, last⟩ := bind_ok_iff.mp undone
          cases last
          exact ⟨rfl, rfl, erase_capacity done⟩
      | nonnegativeInt64SetAdd setAdd =>
          simp only [RevertableObject.revertDelta] at undone
          split_ifs at undone <;> cases undone <;> exact ⟨rfl, rfl, rfl⟩
      | assetObjectAdd assetDelta =>
          simp only [RevertableObject.revertDelta] at undone
          split_ifs at undone <;> cases undone <;> exact ⟨rfl, rfl, rfl⟩
      | _ => first
          | cases undone
            exact ⟨rfl, rfl, rfl⟩
          | cases undone
    · cases undone
      exact ⟨rfl, rfl, rfl⟩
  exact ⟨footing.committedBase, (destroy_required_type destroyed).trans footing.requiredType,
    footing.capacity⟩

theorem Tableless.footing {after : RevertableObject} (tableless : Tableless object)
    (footing : SameFooting object after) : Tableless after := by
  obtain ⟨stored, base, plain, required⟩ := tableless
  exact ⟨stored, footing.committedBase.trans base, plain, footing.requiredType.trans required⟩

/-- A call that passes the table on keeps tableless objects alike. -/
theorem returns_with_table {Answer : Type} {table : AtomicSet}
    {result : Except Fault (Answer × RevertableObject)}
    (kept : ∀ answer after, result = .ok (answer, after) → Tableless after) :
    Returns (fun first second => first.1 = second.1 ∧ SameButTable first.2 second.2) result
      (result.map fun outcome => (outcome.1, { outcome.2 with newHashes := table })) := by
  cases returned : result with
  | error fault => exact .fault fault
  | ok outcome =>
      obtain ⟨answer, after⟩ := outcome
      exact .value ⟨rfl, rfl, .inr (kept answer after returned)⟩

theorem returns_refl {First : Type} {related : First → First → Prop}
    (reflexive : ∀ value, related value value) (result : Except Fault First) :
    Returns related result result := by
  cases result with
  | error fault => exact .fault fault
  | ok value => exact .value (reflexive value)

theorem same_push (same : SameButTable left right) (ids : CallIds) (delta : StorageDelta) :
    Returns (fun first second => first.1 = second.1 ∧ SameButTable first.2 second.2)
      (left.tryAddDelta cryptoShorthash ids delta)
      (right.tryAddDelta cryptoShorthash ids delta) := by
  rcases same.table with equal | tableless
  · rw [same_but_table_eq same equal]
    exact returns_refl (fun value => ⟨rfl, same_but_table_refl value.2⟩) _
  · have other : Tableless right := by
      rw [same.rest]
      exact tableless
    cases inserted : delta.inserted? with
    | none =>
        have passed := congrArg (fun object : RevertableObject =>
          object.tryAddDelta cryptoShorthash ids delta) same.rest
        rw [passed.trans (try_add_delta_new_hashes ids inserted left right.newHashes)]
        exact returns_with_table fun answer after returned =>
          tableless.footing (try_add_delta_footing returned)
    | some hash =>
        have insert : delta = .hashSetInsert hash := by
          cases delta <;> cases inserted
          rfl
        rw [insert, tableless_refuses tableless, tableless_refuses other]
        exact .value ⟨rfl, same⟩

theorem insert_shares_table (same : SameButTable left right) {ids : CallIds}
    {hash : HashSetEntry} {rewind : DeltaRewind} {after : RevertableObject}
    (accepted : left.tryAddDelta cryptoShorthash ids (.hashSetInsert hash) =
      .ok (some rewind, after)) : right = left := by
  rcases same.table with equal | tableless
  · exact same_but_table_eq same equal
  · rw [tableless_refuses tableless] at accepted
    cases accepted

theorem same_commit (same : SameButTable left right) (rewind : DeltaRewind) :
    Returns SameButTable (rewind.commit left) (rewind.commit right) := by
  rcases same.table with equal | tableless
  · rw [same_but_table_eq same equal]
    exact returns_refl same_but_table_refl _
  · have blind : rewind.commit right =
        (rewind.commit left).map fun after => { after with newHashes := right.newHashes } := by
      rw [same.rest]
      unfold DeltaRewind.commit
      generalize rewind.delta = delta
      cases delta with
      | assetObjectAdd assetDelta =>
          simp only [RevertableObject.commitDelta]
          split_ifs <;> rfl
      | _ => rfl
    rw [blind]
    cases returned : rewind.commit left with
    | error fault => exact .fault fault
    | ok after => exact .value ⟨rfl, .inr (tableless.footing (commit_footing returned))⟩

theorem same_destroy (same : SameButTable left right) (newId : UniqueId) {rewind : DeltaRewind}
    (plain : rewind.delta.inserted? = none) :
    Returns SameButTable (rewind.destroy cryptoShorthash newId left)
      (rewind.destroy cryptoShorthash newId right) := by
  rcases same.table with equal | tableless
  · rw [same_but_table_eq same equal]
    exact returns_refl same_but_table_refl _
  · have reverted (object : RevertableObject) (table : AtomicSet) :
        rewind.undo cryptoShorthash { object with newHashes := table } =
          (rewind.undo cryptoShorthash object).map fun after =>
            { after with newHashes := table } := by
      unfold DeltaRewind.undo
      split_ifs
      · generalize rewind.delta = delta at plain
        cases delta with
        | hashSetInsert hash => cases plain
        | nonnegativeInt64SetAdd setAdd =>
            simp only [RevertableObject.revertDelta]
            split_ifs <;> rfl
        | assetObjectAdd assetDelta =>
            simp only [RevertableObject.revertDelta]
            split_ifs <;> rfl
        | _ => rfl
      · rfl
    have blind : rewind.destroy cryptoShorthash newId right =
        (rewind.destroy cryptoShorthash newId left).map fun after =>
          { after with newHashes := right.newHashes } := by
      have passed := congrArg (rewind.undo cryptoShorthash) same.rest
      unfold DeltaRewind.destroy
      rw [passed.trans (reverted left right.newHashes)]
      simp only [bind, Except.bind]
      cases rewind.undo cryptoShorthash left with
      | error fault => rfl
      | ok undone =>
          simp only [Except.map]
          cases rewind.rewindBase.destroy newId undone.baseObj <;> rfl
    rw [blind]
    cases returned : rewind.destroy cryptoShorthash newId left with
    | error fault => exact .fault fault
    | ok after => exact .value ⟨rfl, .inr (tableless.footing (destroy_footing returned))⟩

/-! ## The end of a round -/

theorem agreed_object_plain {stored agreed : StorageObject} {value? : Option StorageDeltaClass}
    (made : agreedObject (some stored) value? = .ok (some agreed)) :
    agreed.body.type = stored.body.type ∧
      ∀ value, value? = some value → value.type = stored.body.type := by
  cases value? with
  | none =>
      cases made
      exact ⟨rfl, fun value impossible => by cases impossible⟩
  | some value =>
      obtain ⟨object, from_class, same⟩ := bind_ok_iff.mp made
      cases same
      have type := object_from_delta_class_type from_class
      have matched : stored.body.type = value.type := by
        unfold objectFromDeltaClass at from_class
        simp only at from_class
        split_ifs at from_class with mismatch
        simpa using mismatch
      refine ⟨type.trans matched.symm, ?_⟩
      rintro _ ⟨⟩
      exact matched.symm

theorem finish_base_new_hashes {agreed : StorageObject} (plain : agreed.body.type ≠ .hashSet)
    (object : RevertableObject) (table : AtomicSet) :
    ({ object with newHashes := table } : RevertableObject).finishBase agreed =
      (object.finishBase agreed).map fun finished => { finished with newHashes := table } := by
  obtain ⟨body, escrowedFee⟩ := agreed
  cases body with
  | hashSet set => exact absurd rfl plain
  | asset stored =>
      simp only [RevertableObject.finishBase]
      split_ifs <;> rfl
  | _ => rfl

def SameAtEnd (left right : RevertableObject) : Prop :=
  right.committedBase = left.committedBase ∧
    (left.committedBase ≠ none → SameButTable left right)

theorem tableless_commit_round (tableless : Tableless object) (table : AtomicSet) :
    Returns SameAtEnd object.commitRound
      ({ object with newHashes := table } : RevertableObject).commitRound := by
  obtain ⟨stored, base, plain, required⟩ := tableless
  rw [commit_round_eq, commit_round_eq]
  simp only [base]
  cases made : agreedObject (some stored) object.baseObj.obj with
  | error fault => exact .fault fault
  | ok start =>
      cases start with
      | none => exact .value ⟨rfl, fun impossible => absurd rfl impossible⟩
      | some agreed =>
          obtain ⟨type, valued⟩ := agreed_object_plain made
          have reset : (atSwitch object (some agreed)).baseObj.requiredType =
              some agreed.body.type := by
            rw [type]
            simp only [atSwitch, RevertableBaseObject.commitRoundAndReset]
            cases held : object.baseObj.obj with
            | none => exact required
            | some value => exact congrArg some (valued value held)
          simp only [bind, Except.bind]
          split_ifs with deleted
          · exact .value ⟨rfl, fun impossible => absurd rfl impossible⟩
          · have passed := finish_base_new_hashes (type ▸ plain) (atSwitch object (some agreed))
              table
            have other : (atSwitch { object with newHashes := table } (some agreed)).finishBase
                agreed = _ := passed
            simp only [base] at other
            rw [other]
            cases finished : (atSwitch object (some agreed)).finishBase agreed with
            | error fault => exact .fault fault
            | ok after =>
                refine .value ⟨rfl, fun _ => ⟨rfl, .inr ?_⟩⟩
                obtain ⟨words, types⟩ := finish_base_type finished
                obtain ⟨last, settled, lastType⟩ := Option.map_eq_some_iff.mp types
                refine ⟨last, settled, ?_, ?_⟩
                · rw [lastType, type]
                  exact plain
                · have kept : after.clearMods.baseObj = after.baseObj := rfl
                  rw [kept, words, reset, lastType]

theorem same_commit_round (same : SameButTable left right) :
    Returns SameAtEnd left.commitRound right.commitRound := by
  rcases same.table with equal | tableless
  · rw [same_but_table_eq same equal]
    exact returns_refl (fun value => ⟨rfl, fun _ => same_but_table_refl value⟩) _
  · rw [same.rest]
    exact tableless_commit_round tableless right.newHashes

theorem same_rewind_round (same : SameButTable left right) :
    SameButTable left.rewindRound right.rewindRound := by
  rcases same.table with equal | tableless
  · rw [same_but_table_eq same equal]
    exact same_but_table_refl _
  · refine ⟨?_, .inr tableless⟩
    rw [same.rest]
    rfl

/-! ## An object that is constructed again -/

/-- The slots of the table of a new hash set once `commit_round` has resized it, by a sum
that is not capped but truncated to 32 bits. -/
def raisedSlots (sizeIncrease : UInt64) : UInt32 :=
  let slots := withExtraBuffer (sizeIncrease + startHashSetSize.toUInt64).toUInt32
  if slots < withExtraBuffer startHashSetSize then withExtraBuffer startHashSetSize else slots

/-- The slots that the constructor gives the committed hash set, whose limit is capped. -/
def cappedSlots (sizeIncrease : UInt64) : UInt32 :=
  withExtraBuffer (min (UInt64.ofNat maxHashSetSize)
    (sizeIncrease + startHashSetSize.toUInt64)).toUInt32

/-- The round drops the object, or the raised limit gives its table the slots that the
constructor would. -/
def RevertableObject.SlotsFollow (object : RevertableObject) : Prop :=
  object.deleteLastCommitted = true ∨
    raisedSlots object.sizeIncrease = cappedSlots object.sizeIncrease

instance (object : RevertableObject) : Decidable object.SlotsFollow :=
  inferInstanceAs (Decidable (_ ∨ _))

theorem finish_table_new (object : RevertableObject) (set : HashSet)
    (limit : set.maxSize = startHashSetSize)
    (capacity : object.newHashes.capacity = withExtraBuffer startHashSetSize)
    (follows : raisedSlots object.sizeIncrease = cappedSlots object.sizeIncrease) :
    (object.finishTable set).clear =
      (AtomicSet.create 0).resize (min (UInt64.ofNat maxHashSetSize)
        (object.sizeIncrease + set.maxSize.toUInt64)).toUInt32 := by
  unfold raisedSlots cappedSlots at follows
  rw [resize_create_vacant, limit, ← follows]
  unfold RevertableObject.finishTable AtomicSet.resize AtomicSet.clear
  simp only [limit, capacity]
  by_cases raised : object.sizeIncrease > 0
  · rw [if_pos raised]
    split_ifs with shrinks
    · rw [capacity]
    · rfl
  · have none_raised : object.sizeIncrease = 0 := by
      apply UInt64.toNat_inj.mp
      rw [gt_iff_lt, UInt64.lt_iff_toNat_lt] at raised
      exact Nat.eq_zero_of_not_pos raised
    have same : (0 + startHashSetSize.toUInt64).toUInt32 = startHashSetSize := rfl
    rw [if_neg raised, none_raised, same, ite_self, capacity]

theorem finish_hash_set_limit {set finished : HashSet}
    (returned : object.finishHashSet set = .ok finished) :
    finished.maxSize = (min (UInt64.ofNat maxHashSetSize)
      (object.sizeIncrease + set.maxSize.toUInt64)).toUInt32 := by
  unfold RevertableObject.finishHashSet at returned
  simp only at returned
  split_ifs at returned
  · obtain ⟨med, _, cleared⟩ := bind_ok_iff.mp returned
    cases cleared
    rfl
  · cases returned
    rfl

/-- Constructing the committed object again gives the object that a new key has
after its first round. -/
theorem constructed_again {after : RevertableObject} {stored : StorageObject}
    (absent : object.committedBase = none)
    (capacity : object.newHashes.capacity = withExtraBuffer startHashSetSize)
    (follows : object.SlotsFollow) (returned : object.commitRound = .ok after)
    (committed : after.committedBase = some stored) :
    SameButTable (.ofCommitted stored) after := by
  rw [commit_round_eq, absent] at returned
  obtain ⟨start, made, rest⟩ := bind_ok_iff.mp returned
  cases start with
  | none =>
      cases rest
      cases committed
  | some agreed =>
      simp only at rest
      split_ifs at rest with deleted
      · cases rest
        cases committed
      · obtain ⟨finished, switched, same⟩ := bind_ok_iff.mp rest
        cases same
        cases held : object.baseObj.obj with
        | none =>
            rw [held] at made
            cases made
        | some value =>
            rw [held] at made
            have words : (atSwitch object (some agreed)).baseObj =
                { tag := 0, obj := none, requiredType := some value.type } := by
              simp only [atSwitch, RevertableBaseObject.commitRoundAndReset, held]
            obtain ⟨fromClass, from_class, same⟩ := bind_ok_iff.mp made
            cases same
            cases value with
            | rawMemory data =>
                cases from_class
                cases switched
                cases committed
                refine ⟨?_, .inr ⟨_, rfl, ?_, rfl⟩⟩
                · simp only [RevertableObject.clearMods, words]
                  rfl
                · intro impossible
                  cases impossible
            | nonnegativeInt64 value =>
                cases from_class
                cases switched
                cases committed
                refine ⟨?_, .inr ⟨_, rfl, ?_, rfl⟩⟩
                · simp only [RevertableObject.clearMods, words]
                  rfl
                · intro impossible
                  cases impossible
            | knownSupplyAsset =>
                cases from_class
                simp only [RevertableObject.finishBase] at switched
                split_ifs at switched
                cases switched
                cases committed
                refine ⟨?_, .inr ⟨_, rfl, ?_, rfl⟩⟩
                · simp only [RevertableObject.clearMods, words]
                  rfl
                · intro impossible
                  cases impossible
            | hashSet =>
                cases from_class
                obtain ⟨set, settled, same⟩ := bind_ok_iff.mp switched
                cases same
                cases committed
                have limit := finish_hash_set_limit settled
                have table := finish_table_new (atSwitch object
                  (some { body := .hashSet { hashes := [], maxSize := startHashSetSize }
                          escrowedFee := 0 }))
                  { hashes := [], maxSize := startHashSetSize } rfl capacity
                  (follows.resolve_left deleted)
                have same : (RevertableObject.ofCommitted
                    { body := .hashSet set, escrowedFee := 0 }).newHashes =
                      (AtomicSet.create 0).resize set.maxSize := rfl
                refine ⟨?_, .inl ?_⟩
                · simp only [RevertableObject.clearMods, words]
                  rfl
                · rw [same, limit]
                  exact table
            | unconstrainedInt64 setValue delta => cases from_class

end Calls

end Scs
