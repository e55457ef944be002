import Scs.Object.Calls
import Mathlib.Data.Multiset.Sort

/-!
# The end of a round, over the ledger

`settle` says what a round leaves in terms of the committed deltas alone. Once
no rewind is open, `commit_round` computes it, and the object it leaves stands
at the start of the next round.
-/

namespace Scs

set_option autoImplicit false

open Ledger Words

/-! ## The start of a round -/

/-- An object with an empty ledger, every accumulator at rest and no slot of its
new-hash table used up. -/
structure RoundStart (cryptoShorthash : CryptoShorthash) (opening : Opening)
    (object : RevertableObject) : Prop where
  accounts : Accounts cryptoShorthash opening 0 0 .undecided object
  vacant : object.newHashes.freeSlots = object.newHashes.capacity.toNat

section Start

variable {cryptoShorthash : CryptoShorthash} {opening : Opening}

theorem resize_create_vacant (newCapacity : UInt32) :
    (AtomicSet.create 0).resize newCapacity = AtomicSet.vacant (withExtraBuffer newCapacity) := by
  have never : ¬ withExtraBuffer newCapacity < (AtomicSet.create 0).capacity := by
    have zero : (AtomicSet.create 0).capacity = 0 := by decide
    rw [zero, UInt32.lt_iff_toNat_lt]
    exact Nat.not_lt_zero _
  unfold AtomicSet.resize
  exact if_neg never

theorem booked_rest {object : RevertableObject}
    (committedBase : object.committedBase = opening.base)
    (subtracted : object.totalSubtracted = 0) (added : object.totalAdded = .zero)
    (limit : object.sizeIncrease = 0) (counted : object.numNewElts = 0)
    (hashes : ∃ capacity, object.newHashes = AtomicSet.vacant capacity)
    (available : object.availableAsset.toNat = opening.supply.toNat)
    (upperbound : object.availableAssetUpperbound.toNat = opening.supply.toNat)
    (cleared : object.hashsetClearCommitted = false)
    (threshold : object.maxCommittedClearThreshold = 0)
    (deleted : object.deleteLastCommitted = false) :
    Booked cryptoShorthash opening 0 0 object where
  committedBase := committedBase
  subtracted := by
    rw [subtracted]
    rfl
  added := by
    rw [added]
    rfl
  limit := by
    rw [limit]
    rfl
  hashes := by
    obtain ⟨capacity, vacant⟩ := hashes
    rw [vacant, AtomicSet.vacant_get_hashes]
    rfl
  sound := by
    obtain ⟨capacity, vacant⟩ := hashes
    rw [vacant]
    exact AtomicSet.vacant_sound capacity
  counted := by
    rw [counted]
    rfl
  available := by
    rw [available]
    rfl
  upperbound := by
    rw [upperbound]
    rfl
  cleared := by simp [cleared]
  threshold := by
    rw [threshold]
    rfl
  deleted := by simp [deleted]

theorem round_start_of_booked {object : RevertableObject}
    (represents : Represents object.baseObj opening.requiredType .undecided)
    (booked : Booked cryptoShorthash opening 0 0 object)
    (hashes : ∃ capacity, object.newHashes = AtomicSet.vacant capacity) :
    RoundStart cryptoShorthash opening object where
  accounts := ⟨represents, agreed_start, booked, solvent_zero opening⟩
  vacant := by
    obtain ⟨capacity, vacant⟩ := hashes
    rw [vacant, AtomicSet.vacant_free_slots, AtomicSet.vacant_capacity]

theorem round_start_over (cryptoShorthash : CryptoShorthash)
    (base : Option StorageObject) :
    RoundStart cryptoShorthash (.onBase base) (.onBase base) := by
  cases base with
  | none =>
      have hashes : ∃ capacity, RevertableObject.fresh.newHashes = AtomicSet.vacant capacity :=
        ⟨_, rfl⟩
      exact round_start_of_booked fresh_represents
        (booked_rest rfl rfl rfl rfl rfl hashes rfl rfl rfl rfl rfl) hashes
  | some stored =>
      obtain ⟨body, escrowedFee⟩ := stored
      have hashes : ∃ capacity,
          (RevertableObject.ofCommitted { body := body, escrowedFee := escrowedFee }).newHashes =
            AtomicSet.vacant capacity := by
        cases body with
        | hashSet set => exact ⟨_, resize_create_vacant set.maxSize⟩
        | _ => exact ⟨_, rfl⟩
      have amount : ∀ value : UInt64, (RevertableObject.ofCommitted
          { body := body, escrowedFee := escrowedFee }).availableAsset = value →
          value.toNat =
            (Opening.onBase (some { body := body, escrowedFee := escrowedFee })).supply.toNat := by
        rintro _ rfl
        cases body <;> rfl
      exact round_start_of_booked (of_object_represents _)
        (booked_rest rfl rfl rfl rfl rfl hashes (amount _ rfl) (amount _ rfl) rfl rfl rfl) hashes

end Start

/-! ## What a round leaves -/

def sortedHashes (hashes : Multiset HashSetEntry) : List HashSetEntry :=
  hashes.sort HashSetEntry.notBelow

theorem normalize_sorted (hashes : List HashSetEntry) :
    hashes.insertionSort HashSetEntry.notBelow = sortedHashes hashes := by
  apply normalized_unique
  · exact List.pairwise_insertionSort HashSetEntry.notBelow hashes
  · exact Multiset.pairwise_sort _ _
  · apply Multiset.coe_eq_coe.mp
    rw [sortedHashes, Multiset.sort_eq]
    exact Multiset.coe_eq_coe.mpr (List.perm_insertionSort HashSetEntry.notBelow hashes)

/-- The withdrawals come off first; the deposits are capped by their counter and
the result by `INT64_MAX`. -/
def settleInt64 (value : Int64) (committed : Multiset StorageDelta) : Int64 :=
  let sum : ℤ := value.toInt - total StorageDelta.withdrawal committed +
    min (total StorageDelta.deposit committed % 2 ^ 128 : ℕ) (2 ^ 64 - 1 : ℕ)
  if 2 ^ 63 ≤ sum then Int64.maxValue else Int64.ofInt sum

def settleHashSet (set : HashSet) (committed : Multiset StorageDelta) : Except Fault HashSet :=
  let merged : HashSet :=
    { hashes := sortedHashes (↑set.hashes + inserts committed)
      maxSize := UInt32.ofNat (min maxHashSetSize
        ((set.maxSize.toNat + total StorageDelta.limitRaise committed) % 2 ^ 64)) }
  if 0 < committed.countP (fun delta => delta.isClear = true) then
    clearHashset merged (UInt64.ofNat (committed.map StorageDelta.clearThreshold).sup)
  else .ok merged

def settleAsset (amount : ℕ) (committed : Multiset StorageDelta) : AssetObject where
  amount := UInt64.ofNat
    (amount + total StorageDelta.assetIn committed - total StorageDelta.assetOut committed)

def settleBody (opening : Opening) (committed : Multiset StorageDelta)
    (agreed : StorageObject) : Except Fault StorageObject :=
  match agreed.body with
  | .nonnegativeInt64 value =>
      .ok { agreed with body := .nonnegativeInt64 (settleInt64 value committed) }
  | .rawMemoryStorage _ => .ok agreed
  | .hashSet set => do
      let settled ← settleHashSet set committed
      .ok { agreed with body := .hashSet settled }
  | .asset _ => .ok { agreed with body := .asset (settleAsset opening.supply.toNat committed) }
  | .unconstrainedInt64 _ =>
      .error (.runtimeError "unimplemented object type in RevertableObject::commit_round()")

def agreedObject (base : Option StorageObject) :
    Option StorageDeltaClass → Except Fault (Option StorageObject)
  | none => .ok base
  | some value => do
      let fromClass ← objectFromDeltaClass value base
      .ok (some fromClass)

/-- The committed object after the round, as a function of the agreed value and
the multiset of committed deltas. -/
def settle (opening : Opening) (value? : Option StorageDeltaClass)
    (committed : Multiset StorageDelta) : Except Fault (Option StorageObject) := do
  match ← agreedObject opening.base value? with
  | none => .ok none
  | some agreed =>
      if StorageDelta.deleteLast ∈ committed then .ok none
      else do
        let settled ← settleBody opening committed agreed
        .ok (some settled)

section Settle

variable {cryptoShorthash : CryptoShorthash} {opening : Opening}
  {committed : Multiset StorageDelta} {object : RevertableObject}

theorem finish_int64_settles {value : Int64}
    (booked : Booked cryptoShorthash opening committed committed object)
    (covered : total StorageDelta.withdrawal committed = 0 ∨
      (total StorageDelta.withdrawal committed : ℤ) ≤ value.toInt) :
    object.finishInt64 value = settleInt64 value committed := by
  have lowest := value.le_toInt
  have highest := value.toInt_lt
  have subtracted := booked.subtracted
  have cap := object.totalAdded.fetch_cap_eq
  rw [booked.added] at cap
  have reduced := int64_add_exact value object.totalSubtracted
    (by omega) (by omega)
  unfold RevertableObject.finishInt64 settleInt64
  have sum : (value + object.totalSubtracted).toInt + (object.totalAdded.fetchCap.toNat : ℤ) =
      value.toInt - total StorageDelta.withdrawal committed +
        min (total StorageDelta.deposit committed % 2 ^ 128 : ℕ) (2 ^ 64 - 1 : ℕ) := by
    rw [reduced, subtracted, cap]
    push_cast
    ring
  by_cases saturated : 2 ^ 63 ≤ (value + object.totalSubtracted).toInt +
      (object.totalAdded.fetchCap.toNat : ℤ)
  · have overflowed : addOverflowInt64 (value + object.totalSubtracted).toInt
        object.totalAdded.fetchCap.toNat = true := add_overflow_int64_iff.mpr (Or.inr saturated)
    simp only [overflowed, if_true]
    rw [if_pos (sum ▸ saturated)]
  · have fits : addOverflowInt64 (value + object.totalSubtracted).toInt
        object.totalAdded.fetchCap.toNat = false := by
      rw [← Bool.not_eq_true, add_overflow_int64_iff]
      omega
    simp only [fits, Bool.false_eq_true, if_false]
    rw [if_neg (sum ▸ saturated), ← sum, Int64.ofInt_add, Int64.ofInt_toInt, to_int64_eq]

theorem finish_hash_set_settles (set : HashSet)
    (booked : Booked cryptoShorthash opening committed committed object) :
    object.finishHashSet set = settleHashSet set committed := by
  have wide := set.maxSize.toNat_lt
  have merged : (set.hashes ++ object.newHashes.getHashes).insertionSort
      HashSetEntry.notBelow = sortedHashes (↑set.hashes + inserts committed) := by
    rw [normalize_sorted, ← Multiset.coe_add, booked.hashes]
  have raised : (min (UInt64.ofNat maxHashSetSize)
      (object.sizeIncrease + set.maxSize.toUInt64)).toUInt32 =
      UInt32.ofNat (min maxHashSetSize
        ((set.maxSize.toNat + total StorageDelta.limitRaise committed) % 2 ^ 64)) := by
    have sum : (object.sizeIncrease + set.maxSize.toUInt64).toNat =
        (set.maxSize.toNat + total StorageDelta.limitRaise committed) % 2 ^ 64 := by
      rw [UInt64.toNat_add, booked.limit, UInt32.toNat_toUInt64]
      omega
    have cap : (UInt64.ofNat maxHashSetSize).toNat = maxHashSetSize := rfl
    apply UInt32.toNat_inj.mp
    rw [UInt64.toNat_toUInt32, UInt32.toNat_ofNat', uint64_min_eq, cap, sum]
  have threshold : object.maxCommittedClearThreshold =
      UInt64.ofNat (committed.map StorageDelta.clearThreshold).sup := by
    rw [← booked.threshold, UInt64.ofNat_toNat]
  have cleared : object.hashsetClearCommitted = true ↔
      0 < committed.countP (fun delta => delta.isClear = true) := by
    rw [booked.cleared, Multiset.countP_pos]
  unfold RevertableObject.finishHashSet settleHashSet normalizeHashset
  simp only [merged, raised, threshold, cleared]

theorem finish_asset_settles (booked : Booked cryptoShorthash opening committed committed object) :
    object.availableAsset = object.availableAssetUpperbound ∧
      ({ amount := object.availableAsset } : AssetObject) =
        settleAsset opening.supply.toNat committed := by
  have available := booked.available
  have upperbound := booked.upperbound
  constructor
  · apply UInt64.toNat_inj.mp
    omega
  · have amount : object.availableAsset.toNat = opening.supply.toNat +
        total StorageDelta.assetIn committed - total StorageDelta.assetOut committed := by
      omega
    rw [settleAsset, ← amount, UInt64.ofNat_toNat]

/-- The switch of `commit_round` computes what the committed deltas settle to. Each case
reads the accumulators of its own type. -/
theorem finish_base_settles {agreed : StorageObject}
    (booked : Booked cryptoShorthash opening committed committed object)
    (covered : ∀ value, agreed.body = .nonnegativeInt64 value →
      total StorageDelta.withdrawal committed = 0 ∨
        (total StorageDelta.withdrawal committed : ℤ) ≤ value.toInt) :
    (object.finishBase agreed).map RevertableObject.getCommittedObject =
      (settleBody opening committed agreed).map some := by
  obtain ⟨body, escrowedFee⟩ := agreed
  unfold RevertableObject.finishBase settleBody
  cases body with
  | nonnegativeInt64 value =>
      simp only [Except.map, RevertableObject.getCommittedObject,
        finish_int64_settles booked (covered value rfl)]
  | rawMemoryStorage raw => rfl
  | hashSet set =>
      simp only [finish_hash_set_settles set booked]
      cases settleHashSet set committed <;> rfl
  | asset stored =>
      obtain ⟨same, amount⟩ := finish_asset_settles booked
      simp only [if_pos same, Except.map, RevertableObject.getCommittedObject, amount]
  | unconstrainedInt64 value => rfl

theorem withdrawals_covered {agreement : Agreement} {agreed : StorageObject}
    (accounts : Accounts cryptoShorthash opening 0 committed agreement object)
    (from_value : agreedObject opening.base agreement.value? = .ok (some agreed)) (value : Int64)
    (body : agreed.body = .nonnegativeInt64 value) :
    total StorageDelta.withdrawal committed = 0 ∨
      (total StorageDelta.withdrawal committed : ℤ) ≤ value.toInt := by
  rcases withdrawals_zero_or committed with zero | ⟨setAdd, member, negative⟩
  · exact Or.inl zero
  · have solvent := accounts.solvent
    have agrees := accounts.agreed.value (.nonnegativeInt64SetAdd setAdd)
    rw [live_none] at solvent agrees
    rw [agrees member _ rfl, agreedObject] at from_value
    have covered := solvent.overdraft setAdd member negative
    simp only [objectFromDeltaClass, bind, Except.bind] at from_value
    split_ifs at from_value
    cases from_value
    cases body
    exact Or.inr covered

/-- The object as the switch of `commit_round` finds it. -/
def atSwitch (object : RevertableObject) (committedBase : Option StorageObject) :
    RevertableObject :=
  { object with
    baseObj := object.baseObj.commitRoundAndReset.2
    committedBase := committedBase }

/-- The three ends of `commit_round`: nothing stored, a deletion, or the switch. -/
theorem commit_round_eq (object : RevertableObject) :
    object.commitRound = (do
      match ← agreedObject object.committedBase object.baseObj.obj with
      | none => .ok (atSwitch object none).clearMods
      | some agreed =>
          if object.deleteLastCommitted = true then
            .ok { (atSwitch object (some agreed)).clearMods with
                  committedBase := none
                  baseObj := (atSwitch object (some agreed)).baseObj.clearRequiredType }
          else do
            let finished ← (atSwitch object (some agreed)).finishBase agreed
            .ok finished.clearMods) := by
  unfold RevertableObject.commitRound RevertableBaseObject.commitRoundAndReset atSwitch
  cases value : object.baseObj.obj with
  | none =>
      cases stored : object.committedBase with
      | none =>
          simp [agreedObject, bind, Except.bind, RevertableBaseObject.commitRoundAndReset, value]
      | some committed =>
          simp [agreedObject, bind, Except.bind, RevertableBaseObject.commitRoundAndReset, value,
            RevertableObject.clearMods]
  | some agreed =>
      cases made : objectFromDeltaClass agreed object.committedBase with
      | error fault => simp [agreedObject, bind, Except.bind, made]
      | ok fromClass =>
          simp [agreedObject, bind, Except.bind, made, RevertableBaseObject.commitRoundAndReset,
            value, RevertableObject.clearMods]

theorem finish_base_at_switch (object : RevertableObject) (agreed : StorageObject)
    (committedBase : Option StorageObject) :
    (atSwitch object committedBase).finishBase agreed =
      (object.finishBase agreed).map fun finished =>
        { finished with baseObj := object.baseObj.commitRoundAndReset.2 } := by
  obtain ⟨body, escrowedFee⟩ := agreed
  cases body with
  | nonnegativeInt64 value => rfl
  | rawMemoryStorage raw => rfl
  | hashSet set =>
      have same : (atSwitch object committedBase).finishHashSet set = object.finishHashSet set :=
        rfl
      simp only [RevertableObject.finishBase, same]
      cases object.finishHashSet set <;> rfl
  | asset stored =>
      by_cases same : object.availableAsset = object.availableAssetUpperbound
      · simp [RevertableObject.finishBase, atSwitch, same, Except.map]
      · simp [RevertableObject.finishBase, atSwitch, same, Except.map]
  | unconstrainedInt64 value => rfl

theorem commit_round_settles {agreement : Agreement}
    (accounts : Accounts cryptoShorthash opening 0 committed agreement object) :
    object.commitRound.map RevertableObject.getCommittedObject =
      settle opening agreement.value? committed := by
  have booked := accounts.booked
  rw [live_none] at booked
  rw [commit_round_eq, booked.committedBase, accounts.represents.obj, settle]
  cases from_value : agreedObject opening.base agreement.value? with
  | error fault => rfl
  | ok start =>
      cases start with
      | none => rfl
      | some agreed =>
          simp only [bind, Except.bind, booked.deleted]
          split_ifs with deleted
          · rfl
          · have finished := finish_base_settles booked
              (withdrawals_covered accounts from_value)
            rw [finish_base_at_switch]
            cases switched : object.finishBase agreed with
            | error fault =>
                rw [switched] at finished
                cases settled : settleBody opening committed agreed with
                | error other =>
                    rw [settled] at finished
                    cases finished
                    rfl
                | ok value =>
                    rw [settled] at finished
                    cases finished
            | ok after =>
                rw [switched] at finished
                cases settled : settleBody opening committed agreed with
                | error other =>
                    rw [settled] at finished
                    cases finished
                | ok value =>
                    rw [settled] at finished
                    simp only [Except.map, Except.ok.injEq] at finished ⊢
                    exact finished

theorem agreed_object_type {value? : Option StorageDeltaClass} {agreed : StorageObject}
    (made : agreedObject opening.base value? = .ok (some agreed)) :
    some agreed.body.type = (value?.map StorageDeltaClass.type).or opening.requiredType := by
  cases value? with
  | none =>
      have stored : opening.base = some agreed := Except.ok.inj made
      rw [Opening.requiredType, stored]
      rfl
  | some value =>
      simp only [agreedObject, bind, Except.bind] at made
      cases from_class : objectFromDeltaClass value opening.base with
      | error fault =>
          rw [from_class] at made
          cases made
      | ok object =>
          rw [from_class] at made
          cases made
          rw [object_from_delta_class_type from_class]
          rfl

theorem agreed_object_none {value? : Option StorageDeltaClass}
    (made : agreedObject opening.base value? = .ok none) : opening.base = none ∧ value? = none := by
  cases value? with
  | none => exact ⟨Except.ok.inj made, rfl⟩
  | some value =>
      simp only [agreedObject, bind, Except.bind] at made
      cases from_class : objectFromDeltaClass value opening.base with
      | error fault =>
          rw [from_class] at made
          cases made
      | ok object =>
          rw [from_class] at made
          cases made

theorem clear_mods_booked (cryptoShorthash : CryptoShorthash) (object : RevertableObject) :
    Booked cryptoShorthash (.onBase object.committedBase) 0 0 object.clearMods := by
  have amount : ∀ value : UInt64, object.clearMods.availableAsset = value →
      value.toNat = (Opening.onBase object.committedBase).supply.toNat := by
    rintro _ rfl
    unfold RevertableObject.clearMods Opening.onBase assetAmount
    cases object.committedBase with
    | none => rfl
    | some stored =>
        obtain ⟨body, escrowedFee⟩ := stored
        cases body <;> rfl
  exact booked_rest rfl rfl rfl rfl rfl ⟨_, rfl⟩ (amount _ rfl) (amount _ rfl) rfl rfl rfl

theorem finish_base_type {agreed : StorageObject} {finished : RevertableObject}
    (done : object.finishBase agreed = .ok finished) :
    finished.baseObj = object.baseObj ∧
      (finished.committedBase.map fun stored => stored.body.type) = some agreed.body.type := by
  obtain ⟨body, escrowedFee⟩ := agreed
  cases body with
  | nonnegativeInt64 value =>
      cases done
      exact ⟨rfl, rfl⟩
  | rawMemoryStorage raw =>
      cases done
      exact ⟨rfl, rfl⟩
  | hashSet set =>
      simp only [RevertableObject.finishBase, bind, Except.bind] at done
      cases settled : object.finishHashSet set with
      | error fault =>
          rw [settled] at done
          cases done
      | ok value =>
          rw [settled] at done
          cases done
          exact ⟨rfl, rfl⟩
  | asset stored =>
      simp only [RevertableObject.finishBase] at done
      split_ifs at done
      cases done
      exact ⟨rfl, rfl⟩
  | unconstrainedInt64 value => cases done

/-- Both words of a round that ended are at rest, with the type of its value. -/
theorem reset_represents {agreement : Agreement} {baseObj : RevertableBaseObject}
    (represents : Represents baseObj opening.requiredType agreement) :
    Represents baseObj.commitRoundAndReset.2
      ((agreement.value?.map StorageDeltaClass.type).or opening.requiredType) .undecided := by
  have obj := represents.obj
  unfold RevertableBaseObject.commitRoundAndReset
  cases valued : agreement.value? with
  | none =>
      rw [valued] at obj
      simp only [obj]
      exact ⟨represents.requiredType, rfl, rfl⟩
  | some value =>
      rw [valued] at obj
      simp only [obj]
      exact ⟨rfl, rfl, rfl⟩

/-- The object that `commit_round` leaves stands at the start of the next round.
After a deletion its asset counters still hold the amount of the deleted asset. -/
theorem commit_round_start {agreement : Agreement} {after : RevertableObject}
    (accounts : Accounts cryptoShorthash opening 0 committed agreement object)
    (returned : object.commitRound = .ok after) :
    ∃ next : Opening, next.base = after.committedBase ∧ RoundStart cryptoShorthash next after := by
  have reset := reset_represents accounts.represents
  rw [commit_round_eq, accounts.booked.committedBase, accounts.represents.obj] at returned
  cases from_value : agreedObject opening.base agreement.value? with
  | error fault =>
      rw [from_value] at returned
      cases returned
  | ok start =>
      rw [from_value] at returned
      cases start with
      | none =>
          obtain ⟨absent, unset⟩ := agreed_object_none from_value
          have untyped : opening.requiredType = none := by
            rw [Opening.requiredType, absent]
            rfl
          rw [unset, untyped] at reset
          cases returned
          exact ⟨.onBase none, rfl, round_start_of_booked reset
            (clear_mods_booked _ (atSwitch object none)) ⟨_, rfl⟩⟩
      | some agreed =>
          have type := agreed_object_type from_value
          rw [← type] at reset
          simp only [bind, Except.bind] at returned
          split_ifs at returned with deleted
          · cases returned
            have cleared := clear_mods_booked cryptoShorthash
              (atSwitch object (some agreed))
            refine ⟨{ base := none, supply := assetAmount (some agreed) }, rfl,
              round_start_of_booked ⟨rfl, reset.obj, reset.word⟩ ?_ ⟨_, rfl⟩⟩
            exact ⟨rfl, cleared.subtracted, cleared.added, cleared.limit, cleared.hashes,
              cleared.sound, cleared.counted, cleared.available, cleared.upperbound,
              cleared.cleared, cleared.threshold, cleared.deleted⟩
          · cases switched : (atSwitch object (some agreed)).finishBase agreed with
            | error fault =>
                rw [switched] at returned
                cases returned
            | ok finished =>
                rw [switched] at returned
                cases returned
                obtain ⟨sameWords, sameType⟩ := finish_base_type switched
                refine ⟨.onBase finished.committedBase, rfl,
                  round_start_of_booked ?_ (clear_mods_booked _ finished) ⟨_, rfl⟩⟩
                have words : finished.clearMods.baseObj = finished.baseObj := rfl
                have required : (Opening.onBase finished.committedBase).requiredType =
                    some agreed.body.type := sameType
                rw [words, sameWords, required]
                exact reset

theorem rewind_round_start {held : Multiset DeltaRewind} {agreement : Agreement}
    (accounts : Accounts cryptoShorthash opening held committed agreement object) :
    RoundStart cryptoShorthash (.onBase opening.base) object.rewindRound := by
  have booked := clear_mods_booked cryptoShorthash
    { object with baseObj := object.baseObj.rewindRound }
  have same : object.committedBase = opening.base := accounts.booked.committedBase
  rw [← same]
  refine round_start_of_booked ⟨?_, rfl, rfl⟩ booked ⟨_, rfl⟩
  have required := accounts.represents.requiredType
  rw [Opening.requiredType, ← same] at required
  exact required

end Settle

end Scs
