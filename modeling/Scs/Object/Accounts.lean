import Mathlib.Order.Lattice.Nat
import Scs.Object.Ledger
import Scs.Object.RevertableObject
import Mathlib.Data.Multiset.Lattice

/-!
# What the words of an object count

`Booked` reads every accumulator of a `RevertableObject` as a sum over the
ledger. Each reservation, undo and commit is shown to keep the reading, and a
reservation is granted exactly when the ledger can afford the delta.
-/

namespace Scs

set_option autoImplicit false

open Words Ledger

/-- The accumulators of an object whose accepted deltas are `live`. -/
structure Booked (cryptoShorthash : CryptoShorthash) (opening : Opening)
    (live committed : Multiset StorageDelta) (object : RevertableObject) : Prop where
  committedBase : object.committedBase = opening.base
  subtracted : object.totalSubtracted.toInt = -(total StorageDelta.withdrawal live : ℤ)
  added : object.totalAdded.value = total StorageDelta.deposit live % 2 ^ 128
  limit : object.sizeIncrease.toNat = total StorageDelta.limitRaise live % 2 ^ 64
  hashes : (object.newHashes.getHashes : Multiset HashSetEntry) = inserts live
  sound : AtomicSet.Sound cryptoShorthash object.newHashes
  counted : object.numNewElts.toNat = (inserts live).card
  available : object.availableAsset.toNat + total StorageDelta.assetOut live =
    opening.supply.toNat + total StorageDelta.assetIn committed
  upperbound : object.availableAssetUpperbound.toNat + total StorageDelta.assetOut committed =
    opening.supply.toNat + total StorageDelta.assetIn live
  cleared : object.hashsetClearCommitted = true ↔ ∃ delta ∈ committed, delta.isClear = true
  threshold : object.maxCommittedClearThreshold.toNat =
    (committed.map StorageDelta.clearThreshold).sup
  deleted : object.deleteLastCommitted = true ↔ StorageDelta.deleteLast ∈ committed

/-- The slots that an accepted delta takes from the new-hash table. -/
def slotsTaken (delta : StorageDelta) : ℕ := delta.inserted?.toList.length

/-- `after` counts `delta` on top of what `before` counts. -/
structure Reserved (delta : StorageDelta) (before after : RevertableObject) : Prop where
  baseObj : after.baseObj = before.baseObj
  committedBase : after.committedBase = before.committedBase
  subtracted : after.totalSubtracted.toInt + delta.withdrawal = before.totalSubtracted.toInt
  added : after.totalAdded.value = (before.totalAdded.value + delta.deposit) % 2 ^ 128
  limit : after.sizeIncrease.toNat = (before.sizeIncrease.toNat + delta.limitRaise) % 2 ^ 64
  hashes : (after.newHashes.getHashes : Multiset HashSetEntry) =
    ↑delta.inserted?.toList + ↑before.newHashes.getHashes
  capacity : after.newHashes.capacity = before.newHashes.capacity
  counted : after.numNewElts.toNat = before.numNewElts.toNat + slotsTaken delta
  available : after.availableAsset.toNat + delta.assetOut = before.availableAsset.toNat
  upperbound : after.availableAssetUpperbound.toNat =
    before.availableAssetUpperbound.toNat + delta.assetIn
  cleared : after.hashsetClearCommitted = before.hashsetClearCommitted
  threshold : after.maxCommittedClearThreshold = before.maxCommittedClearThreshold
  deleted : after.deleteLastCommitted = before.deleteLastCommitted

/-! ## The signed amount of a set-add -/

section SetAdd

variable {setAdd : SetAdd}

theorem withdrawal_of_negative (negative : setAdd.delta < 0) :
    (StorageDelta.withdrawal (.nonnegativeInt64SetAdd setAdd) : ℤ) = -setAdd.delta.toInt := by
  have negativeInt := int64_neg_iff.mp negative
  simp only [StorageDelta.withdrawal]
  omega

theorem deposit_of_negative (negative : setAdd.delta < 0) :
    StorageDelta.deposit (.nonnegativeInt64SetAdd setAdd) = 0 := by
  have negativeInt := int64_neg_iff.mp negative
  simp only [StorageDelta.deposit]
  omega

theorem withdrawal_of_nonnegative (nonnegative : ¬ setAdd.delta < 0) :
    StorageDelta.withdrawal (.nonnegativeInt64SetAdd setAdd) = 0 := by
  have nonnegativeInt := mt int64_neg_iff.mpr nonnegative
  simp only [StorageDelta.withdrawal]
  omega

theorem deposit_of_nonnegative (nonnegative : ¬ setAdd.delta < 0) :
    setAdd.delta.toUInt64.toNat = StorageDelta.deposit (.nonnegativeInt64SetAdd setAdd) := by
  have nonnegativeInt := mt int64_neg_iff.mpr nonnegative
  have reading := to_uint64_eq setAdd.delta
  simp only [StorageDelta.deposit]
  split_ifs at reading <;> omega

end SetAdd

section Booking

variable {cryptoShorthash : CryptoShorthash} {opening : Opening}
  {live committed : Multiset StorageDelta} {object before after : RevertableObject}
  {delta : StorageDelta}

theorem booked_base_obj (booked : Booked cryptoShorthash opening live committed object)
    (baseObj : RevertableBaseObject) :
    Booked cryptoShorthash opening live committed { object with baseObj := baseObj } := by
  exact ⟨booked.committedBase, booked.subtracted, booked.added, booked.limit, booked.hashes,
    booked.sound, booked.counted, booked.available, booked.upperbound, booked.cleared,
    booked.threshold, booked.deleted⟩

theorem card_inserts_cons (delta : StorageDelta) (deltas : Multiset StorageDelta) :
    (inserts (delta ::ₘ deltas)).card = slotsTaken delta + (inserts deltas).card := by
  rw [inserts_cons, Multiset.card_add, Multiset.coe_card]
  rfl

theorem booked_reserve (booked : Booked cryptoShorthash opening live committed before)
    (reserved : Reserved delta before after)
    (sound : AtomicSet.Sound cryptoShorthash after.newHashes) :
    Booked cryptoShorthash opening (delta ::ₘ live) committed after where
  committedBase := reserved.committedBase.trans booked.committedBase
  subtracted := by
    have shift := reserved.subtracted
    rw [booked.subtracted] at shift
    rw [total_cons]
    omega
  added := by
    rw [reserved.added, booked.added, total_cons]
    omega
  limit := by
    rw [reserved.limit, booked.limit, total_cons]
    omega
  hashes := by rw [reserved.hashes, booked.hashes, inserts_cons]
  sound := sound
  counted := by
    rw [reserved.counted, booked.counted, card_inserts_cons, Nat.add_comm]
  available := by
    have shift := reserved.available
    have total := booked.available
    rw [total_cons]
    omega
  upperbound := by
    have shift := reserved.upperbound
    have total := booked.upperbound
    rw [total_cons]
    omega
  cleared := by rw [reserved.cleared, booked.cleared]
  threshold := by rw [reserved.threshold, booked.threshold]
  deleted := by rw [reserved.deleted, booked.deleted]

theorem booked_release
    (booked : Booked cryptoShorthash opening (delta ::ₘ live) committed after)
    (reserved : Reserved delta before after)
    (sound : AtomicSet.Sound cryptoShorthash before.newHashes) :
    Booked cryptoShorthash opening live committed before where
  committedBase := reserved.committedBase.symm.trans booked.committedBase
  subtracted := by
    have shift := reserved.subtracted
    have total := booked.subtracted
    rw [total_cons] at total
    omega
  added := by
    have shift := reserved.added
    have total := booked.added
    have bounded := before.totalAdded.value_lt
    rw [total_cons] at total
    omega
  limit := by
    have shift := reserved.limit
    have total := booked.limit
    have bounded := before.sizeIncrease.toNat_lt
    rw [total_cons] at total
    omega
  hashes := by
    have shift := reserved.hashes
    rw [booked.hashes, inserts_cons] at shift
    exact (add_left_cancel shift).symm
  sound := sound
  counted := by
    have shift := reserved.counted
    rw [booked.counted, card_inserts_cons] at shift
    omega
  available := by
    have shift := reserved.available
    have total := booked.available
    rw [total_cons] at total
    omega
  upperbound := by
    have shift := reserved.upperbound
    have total := booked.upperbound
    rw [total_cons] at total
    omega
  cleared := by rw [← reserved.cleared, booked.cleared]
  threshold := by rw [← reserved.threshold, booked.threshold]
  deleted := by rw [← reserved.deleted, booked.deleted]

structure StorageDelta.Weightless (delta : StorageDelta) : Prop where
  withdrawal : delta.withdrawal = 0
  deposit : delta.deposit = 0
  limitRaise : delta.limitRaise = 0
  inserted : delta.inserted? = none
  assetOut : delta.assetOut = 0
  assetIn : delta.assetIn = 0

theorem reserved_self (weightless : delta.Weightless) (object : RevertableObject) :
    Reserved delta object object := by
  have raise := object.sizeIncrease.toNat_lt
  have slots : slotsTaken delta = 0 := by
    rw [slotsTaken, weightless.inserted]
    rfl
  refine ⟨rfl, rfl, ?_, ?_, ?_, ?_, rfl, ?_, ?_, ?_, rfl, rfl, rfl⟩
  · rw [weightless.withdrawal]
    exact add_zero _
  · rw [weightless.deposit]
    exact object.totalAdded.value_unchanged
  · rw [weightless.limitRaise]
    omega
  · rw [weightless.inserted]
    exact (zero_add _).symm
  · rw [slots, Nat.add_zero]
  · rw [weightless.assetOut, Nat.add_zero]
  · rw [weightless.assetIn, Nat.add_zero]

/-! ## Reserving -/

/-- The reservation that the branch of `try_add_delta` for a delta makes once the
base value is agreed. -/
def admission (cryptoShorthash : CryptoShorthash) (ids : CallIds) :
    StorageDelta → RevertableObject → Except Fault (Option RevertableObject)
  | .nonnegativeInt64SetAdd setAdd => RevertableObject.admitSetAdd setAdd
  | .hashSetIncreaseLimit limitIncrease => RevertableObject.admitIncreaseLimit limitIncrease
  | .hashSetInsert hash => RevertableObject.admitInsert cryptoShorthash ids.allocated hash
  | .assetObjectAdd assetDelta => RevertableObject.admitAssetAdd assetDelta
  | _ => RevertableObject.admitWrite

theorem try_add_delta_classed {value : StorageDeltaClass} (classed : delta.class? = some value)
    (ids : CallIds) (object : RevertableObject) :
    object.tryAddDelta cryptoShorthash ids delta =
      object.reserve ids delta value (admission cryptoShorthash ids delta) := by
  cases delta <;> cases classed <;> rfl

/-- A reservation is granted when the ledger affords the delta, unless an
insertion finds every slot of the table used up. -/
structure Admission (cryptoShorthash : CryptoShorthash) (opening : Opening)
    (live committed : Multiset StorageDelta) (object : RevertableObject) (delta : StorageDelta)
    (answer : Option RevertableObject) : Prop where
  granted : ∀ after, answer = some after →
    Affordable opening live committed delta ∧ Reserved delta object after ∧
    AtomicSet.Sound cryptoShorthash after.newHashes ∧
    after.newHashes.freeSlots + slotsTaken delta = object.newHashes.freeSlots ∧
    (delta.inserted? = none → after.newHashes = object.newHashes)
  refused : answer = none → Affordable opening live committed delta →
    slotsTaken delta = 1 ∧ object.newHashes.freeSlots = 0

theorem admission_granted (affordable : Affordable opening live committed delta)
    (reserved : Reserved delta object after)
    (sound : AtomicSet.Sound cryptoShorthash after.newHashes)
    (slots : after.newHashes.freeSlots + slotsTaken delta = object.newHashes.freeSlots)
    (table : delta.inserted? = none → after.newHashes = object.newHashes) :
    Admission cryptoShorthash opening live committed object delta (some after) where
  granted result same := by
    cases same
    exact ⟨affordable, reserved, sound, slots, table⟩
  refused impossible := by cases impossible

theorem admission_refused (unaffordable : ¬ Affordable opening live committed delta) :
    Admission cryptoShorthash opening live committed object delta none where
  granted result impossible := by cases impossible
  refused _ affordable := absurd affordable unaffordable

theorem affordable_of_weightless (solvent : Solvent opening live committed)
    (compatible : Compatible opening live delta) (noWithdrawal : delta.withdrawal = 0)
    (noInsert : delta.inserted? = none) (noOut : delta.assetOut = 0) (noIn : delta.assetIn = 0) :
    Affordable opening live committed delta where
  toCompatible := compatible
  overdraft setAdd same negative := by
    subst same
    simp only [StorageDelta.withdrawal] at noWithdrawal
    omega
  room hash same := by
    subst same
    cases noInsert
  assetLower := by
    rw [noOut, Nat.zero_add]
    exact solvent.assetLower
  assetUpper := by
    rw [noIn, Nat.zero_add]
    exact solvent.assetUpper

theorem affordable_withdrawal (solvent : Solvent opening live committed) {setAdd : SetAdd}
    (compatible : Compatible opening live (.nonnegativeInt64SetAdd setAdd))
    (covered : (-setAdd.delta.toInt + total StorageDelta.withdrawal live : ℤ) ≤
      setAdd.setValue.toInt) :
    Affordable opening live committed (.nonnegativeInt64SetAdd setAdd) where
  toCompatible := compatible
  overdraft other same negative := by
    cases same
    simp only [StorageDelta.withdrawal]
    omega
  room hash impossible := by cases impossible
  assetLower := by simpa [StorageDelta.assetOut] using solvent.assetLower
  assetUpper := by simpa [StorageDelta.assetIn] using solvent.assetUpper

section Families

variable (booked : Booked cryptoShorthash opening live committed object)
  (solvent : Solvent opening live committed)

include booked solvent

theorem admission_weightless (weightless : delta.Weightless)
    (compatible : Compatible opening live delta) :
    Admission cryptoShorthash opening live committed object delta (some object) := by
  have slots : slotsTaken delta = 0 := by
    rw [slotsTaken, weightless.inserted]
    rfl
  have affordable := affordable_of_weightless solvent compatible weightless.withdrawal
    weightless.inserted weightless.assetOut weightless.assetIn
  apply admission_granted affordable (reserved_self weightless object) booked.sound
  · rw [slots, Nat.add_zero]
  · exact fun _ => rfl

theorem admission_withdrawal {setAdd : SetAdd} (negative : setAdd.delta < 0)
    (compatible : Compatible opening live (.nonnegativeInt64SetAdd setAdd)) :
    ∃ answer, object.admitSetAdd setAdd = .ok answer ∧
      Admission cryptoShorthash opening live committed object (.nonnegativeInt64SetAdd setAdd)
        answer := by
  have bounded := withdrawals_bounded solvent
  have cur := booked.subtracted
  have highestSet := setAdd.setValue.toInt_lt
  have negativeInt := int64_neg_iff.mp negative
  have taken := withdrawal_of_negative negative
  have lacking : setAdd.setValue.toInt <
      -setAdd.delta.toInt + total StorageDelta.withdrawal live →
      ¬ Affordable opening live committed (.nonnegativeInt64SetAdd setAdd) := by
    intro short affordable
    have bound := affordable.overdraft setAdd rfl negativeInt
    omega
  unfold RevertableObject.admitSetAdd
  simp only [if_pos negative]
  by_cases overflows : addOverflowInt64 object.totalSubtracted.toInt setAdd.delta.toInt = true
  · rw [if_pos overflows]
    rw [add_overflow_int64_iff] at overflows
    exact ⟨none, rfl, admission_refused (lacking (by omega))⟩
  · rw [if_neg overflows]
    rw [add_overflow_int64_iff] at overflows
    have newValue := int64_add_exact object.totalSubtracted setAdd.delta
      (by omega) (by omega)
    by_cases unset : setAdd.setValue < 0
    · have unsetInt := int64_neg_iff.mp unset
      rw [if_pos (by simp [unset])]
      exact ⟨none, rfl, admission_refused (lacking (by omega))⟩
    · have setInt := mt int64_neg_iff.mpr unset
      have remaining := int64_add_exact setAdd.setValue
        (object.totalSubtracted + setAdd.delta) (by omega) (by omega)
      by_cases overdrawn : setAdd.setValue + (object.totalSubtracted + setAdd.delta) < 0
      · have overdrawnInt := int64_neg_iff.mp overdrawn
        rw [if_pos (by simp [overdrawn])]
        exact ⟨none, rfl, admission_refused (lacking (by omega))⟩
      · have coveredInt := mt int64_neg_iff.mpr overdrawn
        rw [if_neg (by simp [unset, overdrawn])]
        have raise := object.sizeIncrease.toNat_lt
        refine ⟨_, rfl, admission_granted
          (affordable_withdrawal solvent compatible (by omega)) ?_ booked.sound rfl fun _ => rfl⟩
        refine ⟨rfl, rfl, ?_, ?_, ?_, (zero_add _).symm, rfl, rfl, rfl, rfl, rfl, rfl, rfl⟩
        · rw [taken, newValue]
          omega
        · rw [deposit_of_negative negative]
          exact object.totalAdded.value_unchanged
        · exact (Nat.mod_eq_of_lt raise).symm

theorem admission_deposit {setAdd : SetAdd} (nonnegative : ¬ setAdd.delta < 0)
    (compatible : Compatible opening live (.nonnegativeInt64SetAdd setAdd)) :
    ∃ answer, object.admitSetAdd setAdd = .ok answer ∧
      Admission cryptoShorthash opening live committed object (.nonnegativeInt64SetAdd setAdd)
        answer := by
  have amount := deposit_of_nonnegative nonnegative
  have nothingTaken := withdrawal_of_nonnegative nonnegative
  have raise := object.sizeIncrease.toNat_lt
  unfold RevertableObject.admitSetAdd
  simp only [if_neg nonnegative]
  have affordable := affordable_of_weightless solvent compatible nothingTaken rfl rfl rfl
  refine ⟨_, rfl, admission_granted affordable ?_ booked.sound rfl fun _ => rfl⟩
  refine ⟨rfl, rfl, ?_, ?_, ?_, (zero_add _).symm, rfl, rfl, rfl, rfl, rfl, rfl, rfl⟩
  · rw [nothingTaken]
    exact add_zero _
  · rw [AtomicUint128.value_add, amount]
  · exact (Nat.mod_eq_of_lt raise).symm

theorem admission_limit {limitIncrease : UInt32}
    (compatible : Compatible opening live (.hashSetIncreaseLimit limitIncrease)) :
    ∃ answer, object.admitIncreaseLimit limitIncrease = .ok answer ∧
      Admission cryptoShorthash opening live committed object (.hashSetIncreaseLimit limitIncrease)
        answer := by
  refine ⟨_, rfl, admission_granted
    (affordable_of_weightless solvent compatible rfl rfl rfl rfl) ?_ booked.sound rfl fun _ => rfl⟩
  refine ⟨rfl, rfl, add_zero _, ?_, ?_, (zero_add _).symm, rfl, rfl, rfl, rfl, rfl, rfl, rfl⟩
  · exact object.totalAdded.value_unchanged
  · rw [UInt64.toNat_add, UInt32.toNat_toUInt64]
    rfl

omit solvent in
theorem committed_hashes_ok {hash : HashSetEntry}
    (compatible : Compatible opening live (.hashSetInsert hash)) :
    ∃ maxSize : UInt32, object.committedHashes = .ok (opening.hashes, maxSize) ∧
      maxSize.toNat = opening.limit := by
  have required := compatible.allowed .hashSet rfl
  unfold RevertableObject.committedHashes
  rw [booked.committedBase]
  obtain ⟨base, supply⟩ := opening
  cases base with
  | none => exact ⟨startHashSetSize, rfl, rfl⟩
  | some stored =>
      obtain ⟨body, escrowedFee⟩ := stored
      have type := required body.type rfl
      cases body with
      | hashSet set => exact ⟨set.maxSize, rfl, rfl⟩
      | _ => cases type

theorem admission_insert {hash : HashSetEntry} (ids : CallIds)
    (compatible : Compatible opening live (.hashSetInsert hash)) :
    (¬ ids.Serves (.hashSetInsert hash) ∧
        object.admitInsert cryptoShorthash ids.allocated hash = .error allocMaxReached) ∨
      ∃ answer, object.admitInsert cryptoShorthash ids.allocated hash = .ok answer ∧
        Admission cryptoShorthash opening live committed object (.hashSetInsert hash) answer := by
  obtain ⟨maxSize, reads, limit⟩ := committed_hashes_ok booked compatible
  have counted := booked.counted
  have limitBound := maxSize.toNat_lt
  have one : (1 : UInt32).toNat = 1 := rfl
  have grown : (object.numNewElts + 1).toNat = ((inserts live).card + 1) % 2 ^ 32 := by
    rw [UInt32.toNat_add, counted, one]
  have member : hash ∈ object.newHashes.getHashes ↔ hash ∈ inserts live := by
    rw [← booked.hashes, Multiset.mem_coe]
  have accepts := AtomicSet.insert_allocated_accepts booked.sound hash
  unfold RevertableObject.admitInsert
  rw [reads]
  simp only [bind, Except.bind]
  by_cases seen : hash ∈ opening.hashes
  · rw [if_pos seen]
    refine .inr ⟨none, rfl, admission_refused ?_⟩
    intro affordable
    exact (affordable.room hash rfl).2.1 seen
  · rw [if_neg seen]
    by_cases crowded : opening.hashes.length + (object.numNewElts + 1).toNat > maxSize.toNat
    · rw [if_pos crowded]
      refine .inr ⟨none, rfl, admission_refused ?_⟩
      intro affordable
      have room := (affordable.room hash rfl).1
      omega
    · rw [if_neg crowded]
      rcases Nat.lt_or_ge ids.allocated allocSize with served | drained
      · right
        rw [AtomicSet.try_insert_returns served]
        cases accepted : (object.newHashes.insertAllocated cryptoShorthash hash).1 with
        | false =>
            simp only [Bool.false_eq_true, if_false]
            refine ⟨none, rfl, ?_, ?_⟩
            · intro after impossible
              cases impossible
            · intro _ affordable
              have unseen := (affordable.room hash rfl).2.2
              rw [accepted] at accepts
              have noSlot : ¬ 0 < object.newHashes.freeSlots := by
                intro vacancy
                exact Bool.false_ne_true (accepts.mpr ⟨mt member.mp unseen, vacancy⟩)
              exact ⟨rfl, by omega⟩
        | true =>
            simp only [if_true]
            have possible := accepts.mp accepted
            have spec := AtomicSet.insert_allocated_spec booked.sound accepted
            have occupied := AtomicSet.occupied_le_capacity object.newHashes
            have capacity := object.newHashes.capacity.toNat_lt
            have stored : object.newHashes.getHashes.length = (inserts live).card := by
              rw [← booked.hashes, Multiset.coe_card]
            have exactGrown : (object.numNewElts + 1).toNat = (inserts live).card + 1 := by
              rw [grown]
              apply Nat.mod_eq_of_lt
              omega
            have raise := object.sizeIncrease.toNat_lt
            refine ⟨_, rfl, admission_granted ⟨compatible, ?_, ?_, ?_, ?_⟩ ?_ spec.sound
              spec.freeSlots fun impossible => by cases impossible⟩
            · intro setAdd impossible
              cases impossible
            · intro other same
              cases same
              exact ⟨by omega, seen, mt member.mpr possible.1⟩
            · simpa [StorageDelta.assetOut] using solvent.assetLower
            · simpa [StorageDelta.assetIn] using solvent.assetUpper
            · refine ⟨rfl, rfl, add_zero _, ?_, ?_, ?_, spec.capacity, ?_, rfl, rfl, rfl, rfl, rfl⟩
              · exact object.totalAdded.value_unchanged
              · exact (Nat.mod_eq_of_lt raise).symm
              · rw [spec.contents]
                exact (Multiset.singleton_add hash _).symm
              · rw [exactGrown, counted]
                rfl
      · left
        rw [AtomicSet.try_insert_exhausted drained]
        exact ⟨Nat.not_lt_of_le drained, rfl⟩

omit booked solvent in
theorem affordable_asset {assetDelta : Int64} (committed : Multiset StorageDelta)
    (compatible : Compatible opening live (.assetObjectAdd assetDelta)) :
    Affordable opening live committed (.assetObjectAdd assetDelta) ↔
      (-assetDelta.toInt).toNat + total StorageDelta.assetOut live ≤
        opening.supply.toNat + total StorageDelta.assetIn committed ∧
      opening.supply.toNat + (assetDelta.toInt.toNat + total StorageDelta.assetIn live) <
        2 ^ 64 + total StorageDelta.assetOut committed := by
  constructor
  · intro affordable
    exact ⟨affordable.assetLower, affordable.assetUpper⟩
  · intro bounds
    refine ⟨compatible, ?_, ?_, bounds.1, bounds.2⟩
    · intro setAdd impossible
      cases impossible
    · intro hash impossible
      cases impossible

theorem admission_asset {assetDelta : Int64}
    (compatible : Compatible opening live (.assetObjectAdd assetDelta)) :
    ∃ answer, object.admitAssetAdd assetDelta = .ok answer ∧
      Admission cryptoShorthash opening live committed object (.assetObjectAdd assetDelta)
        answer := by
  have lower := solvent.assetLower
  have upper := solvent.assetUpper
  have available := booked.available
  have upperbound := booked.upperbound
  have raise := object.sizeIncrease.toNat_lt
  have affords := affordable_asset committed compatible
  unfold RevertableObject.admitAssetAdd tryAddUint64
  by_cases negative : assetDelta < 0
  · have negativeInt := int64_neg_iff.mp negative
    rw [if_pos negative]
    by_cases overflows :
        addOverflowUInt64 object.availableAsset.toNat assetDelta.toInt = true
    · rw [if_pos overflows]
      rw [add_overflow_uint64_iff] at overflows
      refine ⟨none, rfl, admission_refused ?_⟩
      rw [affords]
      have bounded := object.availableAsset.toNat_lt
      omega
    · rw [if_neg overflows]
      rw [add_overflow_uint64_iff] at overflows
      have sum := uint64_add_signed object.availableAsset assetDelta
        (by omega) (by omega)
      refine ⟨_, rfl, admission_granted (affords.mpr (by omega)) ?_ booked.sound rfl fun _ => rfl⟩
      refine ⟨rfl, rfl, add_zero _, object.totalAdded.value_unchanged,
        (Nat.mod_eq_of_lt raise).symm, (zero_add _).symm, rfl, rfl, ?_, ?_, rfl, rfl, rfl⟩
      · simp only [StorageDelta.assetOut]
        omega
      · simp only [StorageDelta.assetIn]
        omega
  · have nonnegativeInt := mt int64_neg_iff.mpr negative
    rw [if_neg negative]
    by_cases overflows :
        addOverflowUInt64 object.availableAssetUpperbound.toNat assetDelta.toInt = true
    · rw [if_pos overflows]
      rw [add_overflow_uint64_iff] at overflows
      refine ⟨none, rfl, admission_refused ?_⟩
      rw [affords]
      omega
    · rw [if_neg overflows]
      rw [add_overflow_uint64_iff] at overflows
      have sum := uint64_add_signed object.availableAssetUpperbound
        assetDelta (by omega) (by omega)
      refine ⟨_, rfl, admission_granted (affords.mpr (by omega)) ?_ booked.sound rfl fun _ => rfl⟩
      refine ⟨rfl, rfl, add_zero _, object.totalAdded.value_unchanged,
        (Nat.mod_eq_of_lt raise).symm, (zero_add _).symm, rfl, rfl, ?_, ?_, rfl, rfl, rfl⟩
      · simp only [StorageDelta.assetOut]
        omega
      · simp only [StorageDelta.assetIn]
        omega

theorem admission_spec (ids : CallIds) (compatible : Compatible opening live delta) :
    (¬ ids.Serves delta ∧
        admission cryptoShorthash ids delta object = .error allocMaxReached) ∨
      ∃ answer, admission cryptoShorthash ids delta object = .ok answer ∧
        Admission cryptoShorthash opening live committed object delta answer := by
  have weightless : ∀ (light : delta.Weightless),
      Admission cryptoShorthash opening live committed object delta (some object) :=
    fun light => admission_weightless booked solvent light compatible
  have implemented := compatible.implemented
  cases delta with
  | deleteLast => exact .inr ⟨_, rfl, weightless ⟨rfl, rfl, rfl, rfl, rfl, rfl⟩⟩
  | rawMemoryWrite data => exact .inr ⟨_, rfl, weightless ⟨rfl, rfl, rfl, rfl, rfl, rfl⟩⟩
  | nonnegativeInt64SetAdd setAdd =>
      by_cases negative : setAdd.delta < 0
      · exact .inr (admission_withdrawal booked solvent negative compatible)
      · exact .inr (admission_deposit booked solvent negative compatible)
  | hashSetInsert hash => exact admission_insert booked solvent ids compatible
  | hashSetIncreaseLimit limitIncrease => exact .inr (admission_limit booked solvent compatible)
  | hashSetClear threshold => exact .inr ⟨_, rfl, weightless ⟨rfl, rfl, rfl, rfl, rfl, rfl⟩⟩
  | unconstrainedInt64SetAdd setAdd => cases implemented
  | unconstrainedInt64SetMax setMax => cases implemented
  | unconstrainedInt64SetXor setXor => cases implemented
  | assetObjectAdd assetDelta => exact .inr (admission_asset booked solvent compatible)

end Families

/-! ## Undoing -/

/-- What `revert_delta` leaves: the same account without the delta. A reverted
insertion does not give its slot back. -/
structure Undone (cryptoShorthash : CryptoShorthash) (delta : StorageDelta)
    (object after : RevertableObject) : Prop where
  reserved : Reserved delta after object
  sound : AtomicSet.Sound cryptoShorthash after.newHashes
  freeSlots : after.newHashes.freeSlots = object.newHashes.freeSlots
  table : delta.inserted? = none → after.newHashes = object.newHashes

section Undo

theorem revert_withdrawal {setAdd : SetAdd}
    (booked : Booked cryptoShorthash opening (.nonnegativeInt64SetAdd setAdd ::ₘ live) committed
      object)
    (solvent : Solvent opening (.nonnegativeInt64SetAdd setAdd ::ₘ live) committed)
    (negative : setAdd.delta < 0) :
    ∃ after, object.revertDelta cryptoShorthash (.nonnegativeInt64SetAdd setAdd) = .ok after ∧
      Undone cryptoShorthash (.nonnegativeInt64SetAdd setAdd) object after := by
  have raise := object.sizeIncrease.toNat_lt
  have bounded := withdrawals_bounded solvent
  have cur := booked.subtracted
  rw [total_cons] at bounded cur
  unfold RevertableObject.revertDelta
  have negativeInt := int64_neg_iff.mp negative
  simp only [if_pos negative]
  have taken := withdrawal_of_negative negative
  have restored := int64_sub_exact object.totalSubtracted
    setAdd.delta (by omega) (by omega)
  refine ⟨_, rfl, ⟨rfl, rfl, ?_, ?_, (Nat.mod_eq_of_lt raise).symm, (zero_add _).symm,
    rfl, rfl, rfl, rfl, rfl, rfl, rfl⟩, booked.sound, rfl, fun _ => rfl⟩
  · rw [taken, restored]
    omega
  · rw [deposit_of_negative negative]
    exact object.totalAdded.value_unchanged

theorem revert_deposit {setAdd : SetAdd}
    (booked : Booked cryptoShorthash opening (.nonnegativeInt64SetAdd setAdd ::ₘ live) committed
      object)
    (nonnegative : ¬ setAdd.delta < 0) :
    ∃ after, object.revertDelta cryptoShorthash (.nonnegativeInt64SetAdd setAdd) = .ok after ∧
      Undone cryptoShorthash (.nonnegativeInt64SetAdd setAdd) object after := by
  have raise := object.sizeIncrease.toNat_lt
  unfold RevertableObject.revertDelta
  simp only [if_neg nonnegative]
  have amount := deposit_of_nonnegative nonnegative
  have nothingTaken := withdrawal_of_nonnegative nonnegative
  have amountBound := setAdd.delta.toUInt64.toNat_lt
  have addedBound := object.totalAdded.value_lt
  refine ⟨_, rfl, ⟨rfl, rfl, ?_, ?_, (Nat.mod_eq_of_lt raise).symm, (zero_add _).symm,
    rfl, rfl, rfl, rfl, rfl, rfl, rfl⟩, booked.sound, rfl, fun _ => rfl⟩
  · rw [nothingTaken]
    exact add_zero _
  · rw [AtomicUint128.value_sub, ← amount]
    omega

theorem revert_limit {limitIncrease : UInt32}
    (booked : Booked cryptoShorthash opening (.hashSetIncreaseLimit limitIncrease ::ₘ live)
      committed object) :
    ∃ after, object.revertDelta cryptoShorthash (.hashSetIncreaseLimit limitIncrease) = .ok after ∧
      Undone cryptoShorthash (.hashSetIncreaseLimit limitIncrease) object after := by
  have raise := object.sizeIncrease.toNat_lt
  have wide := limitIncrease.toNat_lt
  refine ⟨_, rfl, ⟨rfl, rfl, add_zero _, object.totalAdded.value_unchanged, ?_,
    (zero_add _).symm, rfl, rfl, rfl, rfl, rfl, rfl, rfl⟩, booked.sound, rfl, fun _ => rfl⟩
  simp only [StorageDelta.limitRaise]
  rw [UInt64.toNat_sub, UInt32.toNat_toUInt64]
  omega

theorem revert_insert {hash : HashSetEntry}
    (booked : Booked cryptoShorthash opening (.hashSetInsert hash ::ₘ live) committed
      object) :
    ∃ after, object.revertDelta cryptoShorthash (.hashSetInsert hash) = .ok after ∧
      Undone cryptoShorthash (.hashSetInsert hash) object after := by
  have raise := object.sizeIncrease.toNat_lt
  have stored : hash ∈ object.newHashes.getHashes := by
    rw [← Multiset.mem_coe, booked.hashes, inserts_insert]
    exact Multiset.mem_cons_self hash _
  obtain ⟨newHashes, erased, spec⟩ := AtomicSet.erase_spec booked.sound stored
  have counted := booked.counted
  have one : (1 : UInt32).toNat = 1 := rfl
  have bounded := object.numNewElts.toNat_lt
  rw [inserts_insert, Multiset.card_cons] at counted
  unfold RevertableObject.revertDelta
  simp only [erased, bind, Except.bind]
  refine ⟨_, rfl, ⟨rfl, rfl, add_zero _, object.totalAdded.value_unchanged,
    (Nat.mod_eq_of_lt raise).symm, ?_, spec.capacity.symm, ?_, rfl, rfl, rfl, rfl, rfl⟩,
    spec.sound, spec.freeSlots, fun impossible => by cases impossible⟩
  · rw [← spec.contents]
    exact (Multiset.singleton_add hash _).symm
  · have slots : slotsTaken (.hashSetInsert hash) = 1 := rfl
    rw [slots, UInt32.toNat_sub, one]
    omega

theorem revert_asset {assetDelta : Int64}
    (booked : Booked cryptoShorthash opening (.assetObjectAdd assetDelta ::ₘ live) committed
      object)
    (solvent : Solvent opening (.assetObjectAdd assetDelta ::ₘ live) committed)
    (included : committed ≤ live) :
    ∃ after, object.revertDelta cryptoShorthash (.assetObjectAdd assetDelta) = .ok after ∧
      Undone cryptoShorthash (.assetObjectAdd assetDelta) object after := by
  have raise := object.sizeIncrease.toNat_lt
  have lower := solvent.assetLower
  have upper := solvent.assetUpper
  have available := booked.available
  have upperbound := booked.upperbound
  have lessOut := total_mono StorageDelta.assetOut included
  have lessIn := total_mono StorageDelta.assetIn included
  rw [total_cons] at lower upper available upperbound
  simp only [StorageDelta.assetOut, StorageDelta.assetIn] at lower upper available upperbound
  unfold RevertableObject.revertDelta
  by_cases negative : assetDelta < 0
  · have negativeInt := int64_neg_iff.mp negative
    simp only [if_pos negative]
    have restored := uint64_sub_signed object.availableAsset
      assetDelta (by omega) (by omega)
    refine ⟨_, rfl, ⟨rfl, rfl, add_zero _, object.totalAdded.value_unchanged,
      (Nat.mod_eq_of_lt raise).symm, (zero_add _).symm, rfl, rfl, ?_, ?_, rfl, rfl, rfl⟩,
      booked.sound, rfl, fun _ => rfl⟩
    · simp only [StorageDelta.assetOut]
      omega
    · simp only [StorageDelta.assetIn]
      omega
  · have nonnegativeInt := mt int64_neg_iff.mpr negative
    simp only [if_neg negative]
    have restored := uint64_sub_signed object.availableAssetUpperbound
      assetDelta (by omega) (by omega)
    refine ⟨_, rfl, ⟨rfl, rfl, add_zero _, object.totalAdded.value_unchanged,
      (Nat.mod_eq_of_lt raise).symm, (zero_add _).symm, rfl, rfl, ?_, ?_, rfl, rfl, rfl⟩,
      booked.sound, rfl, fun _ => rfl⟩
    · simp only [StorageDelta.assetOut]
      omega
    · simp only [StorageDelta.assetIn]
      omega

variable (booked : Booked cryptoShorthash opening (delta ::ₘ live) committed object)
  (solvent : Solvent opening (delta ::ₘ live) committed) (included : committed ≤ live)

include booked solvent included

theorem revert_spec :
    ∃ after, object.revertDelta cryptoShorthash delta = .ok after ∧
      Undone cryptoShorthash delta object after := by
  have implemented := solvent.implemented delta (Multiset.mem_cons_self delta live)
  have weightless : ∀ (light : delta.Weightless),
      Undone cryptoShorthash delta object object :=
    fun light => ⟨reserved_self light object, booked.sound, rfl, fun _ => rfl⟩
  cases delta with
  | deleteLast => exact ⟨_, rfl, weightless ⟨rfl, rfl, rfl, rfl, rfl, rfl⟩⟩
  | rawMemoryWrite data => exact ⟨_, rfl, weightless ⟨rfl, rfl, rfl, rfl, rfl, rfl⟩⟩
  | hashSetClear threshold => exact ⟨_, rfl, weightless ⟨rfl, rfl, rfl, rfl, rfl, rfl⟩⟩
  | unconstrainedInt64SetAdd setAdd => cases implemented
  | unconstrainedInt64SetMax setMax => cases implemented
  | unconstrainedInt64SetXor setXor => cases implemented
  | nonnegativeInt64SetAdd setAdd =>
      by_cases negative : setAdd.delta < 0
      · exact revert_withdrawal booked solvent negative
      · exact revert_deposit booked negative
  | hashSetIncreaseLimit limitIncrease => exact revert_limit booked
  | hashSetInsert hash => exact revert_insert booked
  | assetObjectAdd assetDelta => exact revert_asset booked solvent included

end Undo

/-! ## Committing -/

/-- `after` counts `delta` as committed; its reservation stays. -/
structure Fixed (delta : StorageDelta) (before after : RevertableObject) : Prop where
  baseObj : after.baseObj = before.baseObj
  newHashes : after.newHashes = before.newHashes
  committedBase : after.committedBase = before.committedBase
  subtracted : after.totalSubtracted = before.totalSubtracted
  added : after.totalAdded = before.totalAdded
  limit : after.sizeIncrease = before.sizeIncrease
  counted : after.numNewElts = before.numNewElts
  available : after.availableAsset.toNat = before.availableAsset.toNat + delta.assetIn
  upperbound : after.availableAssetUpperbound.toNat + delta.assetOut =
    before.availableAssetUpperbound.toNat
  cleared : after.hashsetClearCommitted = (before.hashsetClearCommitted || delta.isClear)
  threshold : after.maxCommittedClearThreshold.toNat =
    max delta.clearThreshold before.maxCommittedClearThreshold.toNat
  deleted : after.deleteLastCommitted = true ↔
    delta = .deleteLast ∨ before.deleteLastCommitted = true

theorem booked_fix (booked : Booked cryptoShorthash opening live committed before)
    (fixed : Fixed delta before after) :
    Booked cryptoShorthash opening live (delta ::ₘ committed) after where
  committedBase := fixed.committedBase.trans booked.committedBase
  subtracted := by rw [fixed.subtracted, booked.subtracted]
  added := by rw [fixed.added, booked.added]
  limit := by rw [fixed.limit, booked.limit]
  hashes := by rw [fixed.newHashes, booked.hashes]
  sound := by
    rw [fixed.newHashes]
    exact booked.sound
  counted := by rw [fixed.counted, booked.counted]
  available := by
    have shift := fixed.available
    have total := booked.available
    rw [total_cons]
    omega
  upperbound := by
    have shift := fixed.upperbound
    have total := booked.upperbound
    rw [total_cons]
    omega
  cleared := by
    rw [fixed.cleared, Bool.or_eq_true, booked.cleared, or_comm]
    simp only [Multiset.mem_cons, or_and_right, exists_or, exists_eq_left]
  threshold := by rw [fixed.threshold, booked.threshold, Multiset.map_cons, Multiset.sup_cons]
  deleted := by
    rw [fixed.deleted, booked.deleted, Multiset.mem_cons]
    exact or_congr eq_comm Iff.rfl

theorem fixed_self (noIn : delta.assetIn = 0) (noOut : delta.assetOut = 0)
    (noClear : delta.isClear = false) (noThreshold : delta.clearThreshold = 0)
    (noDelete : delta ≠ .deleteLast) (object : RevertableObject) : Fixed delta object object where
  baseObj := rfl
  newHashes := rfl
  committedBase := rfl
  subtracted := rfl
  added := rfl
  limit := rfl
  counted := rfl
  available := by rw [noIn, Nat.add_zero]
  upperbound := by rw [noOut, Nat.add_zero]
  cleared := by rw [noClear, Bool.or_false]
  threshold := by rw [noThreshold, Nat.zero_max]
  deleted := by simp only [noDelete, false_or]

theorem commit_delta_spec (booked : Booked cryptoShorthash opening live committed object)
    (solvent : Solvent opening live committed) (included : delta ::ₘ committed ≤ live) :
    ∃ after, object.commitDelta delta = .ok after ∧ Fixed delta object after := by
  have implemented := solvent.implemented delta
    (Multiset.mem_of_le included (Multiset.mem_cons_self delta committed))
  have noBool := Bool.or_false object.hashsetClearCommitted
  cases delta with
  | deleteLast =>
      refine ⟨_, rfl, rfl, rfl, rfl, rfl, rfl, rfl, rfl, rfl, rfl, noBool.symm, ?_, ?_⟩
      · exact (Nat.zero_max _).symm
      · simp only [true_or]
  | rawMemoryWrite data => exact ⟨_, rfl, fixed_self rfl rfl rfl rfl (by simp) object⟩
  | nonnegativeInt64SetAdd setAdd => exact ⟨_, rfl, fixed_self rfl rfl rfl rfl (by simp) object⟩
  | hashSetInsert hash => exact ⟨_, rfl, fixed_self rfl rfl rfl rfl (by simp) object⟩
  | hashSetIncreaseLimit limitIncrease =>
      exact ⟨_, rfl, fixed_self rfl rfl rfl rfl (by simp) object⟩
  | hashSetClear threshold =>
      refine ⟨_, rfl, rfl, rfl, rfl, rfl, rfl, rfl, rfl, rfl, rfl, ?_, ?_, ?_⟩
      · exact (Bool.or_true _).symm
      · simp only [StorageDelta.clearThreshold]
        split_ifs with larger
        · rw [Nat.max_eq_right (UInt64.le_iff_toNat_le.mp larger)]
        · rw [Nat.max_eq_left]
          exact Nat.le_of_lt (Nat.lt_of_not_le (mt UInt64.le_iff_toNat_le.mpr larger))
      · simp only [reduceCtorEq, false_or]
  | unconstrainedInt64SetAdd setAdd => cases implemented
  | unconstrainedInt64SetMax setMax => cases implemented
  | unconstrainedInt64SetXor setXor => cases implemented
  | assetObjectAdd assetDelta =>
      have lower := solvent.assetLower
      have upper := solvent.assetUpper
      have available := booked.available
      have upperbound := booked.upperbound
      have lessOut := total_mono StorageDelta.assetOut included
      have lessIn := total_mono StorageDelta.assetIn included
      rw [total_cons] at lessOut lessIn
      simp only [StorageDelta.assetOut, StorageDelta.assetIn] at lessOut lessIn
      unfold RevertableObject.commitDelta
      by_cases negative : assetDelta < 0
      · have negativeInt := int64_neg_iff.mp negative
        simp only [if_pos negative]
        have sum := uint64_add_signed object.availableAssetUpperbound
          assetDelta (by omega) (by omega)
        refine ⟨_, rfl, rfl, rfl, rfl, rfl, rfl, rfl, rfl, ?_, ?_, noBool.symm,
          (Nat.zero_max _).symm, by simp⟩
        · simp only [StorageDelta.assetIn]
          omega
        · simp only [StorageDelta.assetOut]
          omega
      · have nonnegativeInt := mt int64_neg_iff.mpr negative
        simp only [if_neg negative]
        have sum := uint64_add_signed object.availableAsset assetDelta
          (by omega) (by omega)
        refine ⟨_, rfl, rfl, rfl, rfl, rfl, rfl, rfl, rfl, ?_, ?_, noBool.symm,
          (Nat.zero_max _).symm, by simp⟩
        · simp only [StorageDelta.assetIn]
          omega
        · simp only [StorageDelta.assetOut]
          omega

end Booking

end Scs
