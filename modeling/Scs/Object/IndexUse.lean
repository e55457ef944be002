import Scs.Library.Lockstep
import Scs.Object.Accounts

/-!
# The index that an insertion takes (`hash_set/atomic_set.cc`)

The allocator of its thread matters to a call of `try_add_delta` only when the call
reaches `new_hashes.try_insert`, and there only by having an entry left.
-/

namespace Scs

set_option autoImplicit false

open Ledger Lockstep

/-- How a call depends on the entries its thread has allocated: not at all, or by the
one index that it takes. -/
inductive IndexUse {Result : Type} (call : ℕ → Except Fault Result) : Bool → Prop
  | spared (same : ∀ allocated, call allocated = call 0) (fits : exhausts (call 0) = false) :
      IndexUse call false
  | taken (same : ∀ allocated < allocSize, call allocated = call 0)
      (fits : exhausts (call 0) = false)
      (drained : ∀ allocated, allocSize ≤ allocated → call allocated = .error allocMaxReached) :
      IndexUse call true

section Uses

variable {First Second : Type} {call : ℕ → Except Fault First} {used : Bool}

theorem index_use_exhausts (index : IndexUse call used) : exhausts (call allocSize) = used := by
  cases index with
  | spared same fits => exact (congrArg exhausts (same allocSize)).trans fits
  | taken same fits drained =>
      rw [drained allocSize (le_refl _)]
      rfl

theorem index_use_spared {answer : Except Fault First} (fits : exhausts answer = false) :
    IndexUse (fun _ => answer) false :=
  .spared (fun _ => rfl) fits

theorem exhausts_bind {first : Except Fault First} {rest : First → Except Fault Second}
    (fits : exhausts first = false) (plain : ∀ value, exhausts (rest value) = false) :
    exhausts (first >>= rest) = false := by
  cases first with
  | ok value => exact plain value
  | error fault => exact fits

theorem index_use_bind {rest : First → Except Fault Second} (index : IndexUse call used)
    (plain : ∀ value, exhausts (rest value) = false) :
    IndexUse (fun allocated => call allocated >>= rest) used := by
  cases index with
  | spared same fits =>
      refine .spared (fun allocated => ?_) (exhausts_bind fits plain)
      simp only [same allocated]
  | taken same fits drained =>
      refine .taken (fun allocated room => ?_) (exhausts_bind fits plain) fun allocated full => ?_
      · simp only [same allocated room]
      · simp only [drained allocated full]
        rfl

theorem index_use_answer {allocated : ℕ} (index : IndexUse call used)
    (room : used = true → allocated < allocSize) : call allocated = call 0 := by
  cases index with
  | spared same fits => exact same allocated
  | taken same fits drained => exact same allocated (room rfl)

theorem index_use_room {allocated : ℕ} {result : First} (index : IndexUse call true)
    (returned : call allocated = .ok result) : allocated < allocSize := by
  cases index with
  | taken same fits drained =>
      apply Nat.lt_of_not_le
      intro full
      rw [drained allocated full] at returned
      cases returned

end Uses

section Calls

variable {cryptoShorthash : CryptoShorthash} {ids : CallIds} {delta : StorageDelta}
  {object : RevertableObject}

theorem while_true_fits {Result : Type} (body : Option Result) :
    exhausts (whileTrue body) = false := by
  cases body <;> rfl

theorem try_set_fits (newId : UniqueId) (value : StorageDeltaClass)
    (baseObj : RevertableBaseObject) : exhausts (baseObj.trySet newId value) = false := by
  unfold RevertableBaseObject.trySet
  split
  · split_ifs
    · rfl
    · exact while_true_fits _
  · exact while_true_fits _

theorem destroy_fits (newId : UniqueId) (rewind : Rewind) (baseObj : RevertableBaseObject) :
    exhausts (rewind.destroy newId baseObj) = false := by
  unfold Rewind.destroy
  split_ifs
  · exact while_true_fits _
  · rfl

theorem committed_hashes_fits (object : RevertableObject) :
    exhausts object.committedHashes = false := by
  unfold RevertableObject.committedHashes
  split <;> rfl

theorem allocated_after_eq : object.allocatedAfter cryptoShorthash ids delta =
    ids.allocated + if object.takesIndex cryptoShorthash ids delta then 1 else 0 := by
  unfold RevertableObject.allocatedAfter
  split_ifs <;> rfl

theorem reserve_index_use {value : StorageDeltaClass}
    {attempt : ℕ → RevertableObject → Except Fault (Option RevertableObject)}
    (attempted : ∀ object, ∃ used, IndexUse (fun allocated => attempt allocated object) used) :
    ∃ used, IndexUse (fun allocated =>
      RevertableObject.reserve (ids.holding allocated) delta value (attempt allocated) object)
      used := by
  have agreed := try_set_fits ids.set value object.baseObj
  simp only [RevertableObject.reserve, CallIds.holding]
  generalize object.baseObj.trySet ids.set value = set at agreed
  cases set with
  | error fault => exact ⟨false, index_use_spared agreed⟩
  | ok outcome =>
      obtain ⟨answer, baseObj⟩ := outcome
      cases answer with
      | none => exact ⟨false, index_use_spared rfl⟩
      | some rewind =>
          obtain ⟨used, index⟩ := attempted { object with baseObj := baseObj }
          refine ⟨used, index_use_bind index fun reserved => ?_⟩
          cases reserved with
          | some after => rfl
          | none => exact exhausts_bind (destroy_fits _ _ _) fun _ => rfl

/-- An insertion that passes the checks takes an index, whether or not the table then
accepts the entry. -/
theorem admit_insert_index_use (hash : HashSetEntry) (object : RevertableObject) :
    ∃ used, IndexUse (fun allocated =>
      RevertableObject.admitInsert cryptoShorthash allocated hash object) used := by
  have reads := committed_hashes_fits object
  unfold RevertableObject.admitInsert
  generalize object.committedHashes = limits at reads
  cases limits with
  | error fault => exact ⟨false, index_use_spared reads⟩
  | ok limits =>
      simp only [bind, Except.bind]
      split_ifs
      · exact ⟨false, index_use_spared rfl⟩
      · exact ⟨false, index_use_spared rfl⟩
      · refine ⟨true, .taken (fun allocated room => ?_) ?_ fun allocated full => ?_⟩
        · rw [AtomicSet.try_insert_returns room, AtomicSet.try_insert_returns (by decide)]
        · rw [AtomicSet.try_insert_returns (by decide)]
          simp only
          split_ifs <;> rfl
        · rw [AtomicSet.try_insert_exhausted full]

/-- Every call uses the allocator at most once, as `takesIndex` says. -/
theorem try_add_delta_index_use : IndexUse
    (fun allocated => object.tryAddDelta cryptoShorthash (ids.holding allocated) delta)
    (object.takesIndex cryptoShorthash ids delta) := by
  have decided : ∃ used, IndexUse
      (fun allocated => object.tryAddDelta cryptoShorthash (ids.holding allocated) delta)
      used := by
    have plain {value : StorageDeltaClass}
        {attempt : RevertableObject → Except Fault (Option RevertableObject)}
        (fits : ∀ object, exhausts (attempt object) = false) :
        ∃ used, IndexUse (fun allocated =>
          RevertableObject.reserve (ids.holding allocated) delta value attempt object) used :=
      reserve_index_use fun object => ⟨false, index_use_spared (fits object)⟩
    cases delta with
    | deleteLast => exact ⟨false, index_use_spared rfl⟩
    | hashSetInsert hash => exact reserve_index_use (admit_insert_index_use hash)
    | rawMemoryWrite data => exact plain fun _ => rfl
    | hashSetIncreaseLimit limitIncrease => exact plain fun _ => rfl
    | hashSetClear threshold => exact plain fun _ => rfl
    | nonnegativeInt64SetAdd setAdd =>
        apply plain
        intro object
        simp only [RevertableObject.admitSetAdd]
        split_ifs <;> rfl
    | assetObjectAdd assetDelta =>
        apply plain
        intro object
        unfold RevertableObject.admitAssetAdd
        split_ifs <;> split <;> rfl
    | _ => exact ⟨false, index_use_spared rfl⟩
  obtain ⟨used, index⟩ := decided
  have same := index_use_exhausts index
  unfold RevertableObject.takesIndex
  rw [same]
  exact index

theorem plain_takes_no_index (plain : delta.inserted? = none) :
    object.takesIndex cryptoShorthash ids delta = false := by
  have blind (allocated : ℕ) : object.tryAddDelta cryptoShorthash (ids.holding allocated) delta =
      object.tryAddDelta cryptoShorthash (ids.holding 0) delta := by
    cases delta <;> first | rfl | cases plain
  cases used : object.takesIndex cryptoShorthash ids delta with
  | false => rfl
  | true =>
      have index : IndexUse _ (object.takesIndex cryptoShorthash ids delta) :=
        try_add_delta_index_use
      rw [used] at index
      cases index with
      | taken same fits drained =>
          rw [← blind allocSize, drained allocSize (le_refl _)] at fits
          cases fits

theorem accepted_insert_room {hash : HashSetEntry} {rewind : DeltaRewind}
    {after : RevertableObject}
    (accepted : object.tryAddDelta cryptoShorthash ids (.hashSetInsert hash) =
      .ok (some rewind, after)) : ids.allocated < allocSize := by
  obtain ⟨⟨granted, baseObj⟩, set, rest⟩ := bind_ok_iff.mp accepted
  cases granted with
  | none => cases rest
  | some base =>
      obtain ⟨reserved, tried, finished⟩ := bind_ok_iff.mp rest
      cases reserved with
      | none =>
          obtain ⟨undone, destroyed, last⟩ := bind_ok_iff.mp finished
          cases last
      | some kept =>
          obtain ⟨⟨hashes, maxSize⟩, _, checked⟩ := bind_ok_iff.mp tried
          simp only at checked
          split_ifs at checked
          · cases checked
          · cases checked
          · obtain ⟨outcome, inserted, _⟩ := bind_ok_iff.mp checked
            apply Nat.lt_of_not_le
            intro full
            rw [AtomicSet.try_insert_exhausted full] at inserted
            cases inserted

theorem holding_serves_iff {allocated : ℕ} :
    (ids.holding allocated).Serves delta ↔ slotsTaken delta ≤ allocSize - allocated := by
  cases delta with
  | hashSetInsert hash =>
      have one : slotsTaken (.hashSetInsert hash) = 1 := rfl
      simp only [CallIds.Serves, CallIds.holding, one]
      omega
  | _ => simp [CallIds.Serves, slotsTaken, StorageDelta.inserted?]

theorem accepted_serves {rewind : DeltaRewind} {after : RevertableObject}
    (accepted : object.tryAddDelta cryptoShorthash ids delta = .ok (some rewind, after)) :
    ids.Serves delta := by
  cases delta with
  | hashSetInsert hash => exact accepted_insert_room accepted
  | _ => exact trivial

theorem fresh_serves : (ids.holding 0).Serves delta := by
  have room : (0 : ℕ) < allocSize := by decide
  cases delta <;> first | exact trivial | exact room

theorem accepted_allocated {rewind : DeltaRewind} {after : RevertableObject}
    (accepted : object.tryAddDelta cryptoShorthash ids delta = .ok (some rewind, after)) :
    object.allocatedAfter cryptoShorthash ids delta = ids.allocated + slotsTaken delta := by
  unfold RevertableObject.allocatedAfter
  cases inserted : delta.inserted? with
  | none =>
      have plain : slotsTaken delta = 0 := by
        cases delta <;> first | rfl | cases inserted
      rw [plain_takes_no_index inserted, plain]
      rfl
  | some hash =>
      have insert : delta = .hashSetInsert hash := by
        cases delta <;> cases inserted
        rfl
      subst insert
      have index : IndexUse _ (object.takesIndex cryptoShorthash ids (.hashSetInsert hash)) :=
        try_add_delta_index_use
      cases used : object.takesIndex cryptoShorthash ids (.hashSetInsert hash) with
      | true => rfl
      | false =>
          rw [used] at index
          cases index with
          | spared same fits =>
              have drained := (same allocSize).trans ((same ids.allocated).symm.trans accepted)
              exact absurd (accepted_insert_room drained) (lt_irrefl _)

/-- What an accepted delta takes from the entries of its thread. -/
theorem accepted_takes {allocated : ℕ} {rewind : DeltaRewind} {after : RevertableObject}
    (accepted : object.tryAddDelta cryptoShorthash (ids.holding allocated) delta =
      .ok (some rewind, after)) :
    slotsTaken delta ≤ allocSize - allocated ∧
      object.allocatedAfter cryptoShorthash (ids.holding allocated) delta =
        allocated + slotsTaken delta :=
  ⟨holding_serves_iff.mp (accepted_serves accepted), accepted_allocated accepted⟩

end Calls

end Scs
