import Scs.Library.Lockstep
import Scs.Object.Round
import Scs.StorageProxy.ProxyApplicator

/-!
# What a transaction sees of one key

A `ProxyApplicator` that has accepted all its operations has one of five
shapes: untouched, or the merged operations of one object type over the
committed object. Deletion hides the value and keeps the merged operations.
-/

namespace Scs

set_option autoImplicit false

open HashSetEntry Ledger Lockstep ProxyApplicator Words

/-! ## The object under the operations -/

def carriedFee (base : Option StorageObject) : UInt64 :=
  match base with
  | some object => object.escrowedFee
  | none => 0

def limitWord (base : Option StorageObject) : UInt32 :=
  match base with
  | some { body := .hashSet set, .. } => set.maxSize
  | _ => startHashSetSize

def Admits (base : Option StorageObject) (type : ObjectType) : Prop :=
  ∀ required, (Opening.onBase base).requiredType = some required → required = type

structure Tidy (base : Option StorageObject) : Prop where
  sorted : Normalized (Opening.onBase base).hashes
  short : (Opening.onBase base).hashes.length ≤ maxHashSetSize
  bounded : (limitWord base).toNat ≤ maxHashSetSize

def survives (threshold : Option UInt64) (entry : HashSetEntry) : Bool :=
  match threshold with
  | none => true
  | some threshold => entry.index > threshold

/-- The local entries: all that was committed or inserted, less what is cleared. -/
def localHashes (base : Option StorageObject) (new : List HashSetEntry)
    (threshold : Option UInt64) : List HashSetEntry :=
  (sortedHashes (↑(Opening.onBase base).hashes + ↑new)).filter (survives threshold)

inductive View (base : Option StorageObject) : ProxyApplicator → Prop
  | untouched : View base (.onBase base)
  | rawMemory (admits : Admits base .rawMemory) (data : RawMemoryStorage) :
      View base
        { ProxyApplicator.onBase base with
          memoryWrite := some data
          current := some { body := .rawMemoryStorage data, escrowedFee := carriedFee base } }
  | nonnegativeInt64 (admits : Admits base .nonnegativeInt64) (setAdd : SetAdd) (value : Int64)
      (covered : setAdd.delta.toInt < 0 → 0 ≤ setAdd.setValue.toInt + setAdd.delta.toInt)
      (valued : value.toInt = min (2 ^ 63 - 1) (setAdd.setValue.toInt + setAdd.delta.toInt)) :
      View base
        { ProxyApplicator.onBase base with
          nnint64Delta := some setAdd
          current := some { body := .nonnegativeInt64 value, escrowedFee := carriedFee base } }
  | hashSet (admits : Admits base .hashSet) (raised : Bool) (increase : UInt64)
      (new : List HashSetEntry) (threshold : Option UInt64) (hashes : List HashSetEntry)
      (touched : raised = true ∨ new ≠ [] ∨ threshold ≠ none)
      (contents : Tidy base → hashes = localHashes base new threshold ∧
        hashes.length ≤ maxHashSetSize) :
      View base
        { ProxyApplicator.onBase base with
          doLimitIncrease := raised
          hsSizeIncrease := increase
          newHashes := new
          hsClearThreshold := threshold
          current := some
            { body := .hashSet { hashes := hashes, maxSize := limitWord base }
              escrowedFee := carriedFee base } }
  | asset (admits : Admits base .knownSupplyAsset) (sum : Int64) (amount : UInt64)
      (total : (amount.toNat : ℤ) = (assetAmount base).toNat + sum.toInt) :
      View base
        { ProxyApplicator.onBase base with
          delta := some sum
          current := some { body := .asset { amount := amount }, escrowedFee := carriedFee base } }

section Shapes

variable {base : Option StorageObject} {applicator next : ProxyApplicator}
  {object : StorageObject} {type : ObjectType}

/-- What `make_current` opens on an untouched view. -/
structure Opened (base : Option StorageObject) (type : ObjectType) (object : StorageObject) :
    Prop where
  admits : Admits base type
  fee : object.escrowedFee = carriedFee base
  typed : object.body.type = type
  start : base = some object ∨ base = none ∧ defaultBody type = .ok object.body

theorem make_current_untouched
    (made : (ProxyApplicator.onBase base).makeCurrent type = .ok object) :
    Opened base type object := by
  unfold makeCurrent ProxyApplicator.onBase at made
  cases base with
  | none =>
      simp only at made
      obtain ⟨body, defaulted, built⟩ := bind_ok_iff.mp made
      obtain ⟨opened, same, rest⟩ := bind_ok_iff.mp built
      cases same
      simp only at rest
      split_ifs at rest with differs
      cases rest
      refine ⟨?_, rfl, not_not.mp differs, Or.inr ⟨rfl, defaulted⟩⟩
      intro required impossible
      cases impossible
  | some stored =>
      simp only at made
      obtain ⟨opened, same, rest⟩ := bind_ok_iff.mp made
      cases same
      split_ifs at rest with differs
      cases rest
      refine ⟨?_, rfl, not_not.mp differs, Or.inl rfl⟩
      intro required same
      cases same
      exact not_not.mp differs

theorem make_current_touched {current : StorageObject}
    (touched : applicator.current = some current)
    (made : applicator.makeCurrent type = .ok object) :
    object = current ∧ current.body.type = type := by
  unfold makeCurrent at made
  rw [touched] at made
  obtain ⟨opened, same, rest⟩ := bind_ok_iff.mp made
  cases same
  simp only at rest
  split_ifs at rest with differs
  cases rest
  exact ⟨rfl, not_not.mp differs⟩

theorem opened_hash_set {set : HashSet} (opened : Opened base .hashSet object)
    (body : object.body = .hashSet set) :
    set.hashes = (Opening.onBase base).hashes ∧ set.maxSize = limitWord base := by
  obtain ⟨objectBody, fee⟩ := object
  simp only at body
  subst body
  rcases opened.start with rfl | ⟨rfl, defaulted⟩
  · exact ⟨rfl, rfl⟩
  · cases defaulted
    exact ⟨rfl, rfl⟩

theorem opened_asset {asset : AssetObject} (opened : Opened base .knownSupplyAsset object)
    (body : object.body = .asset asset) : asset.amount = assetAmount base := by
  obtain ⟨objectBody, fee⟩ := object
  simp only at body
  subst body
  rcases opened.start with rfl | ⟨rfl, defaulted⟩
  · rfl
  · cases defaulted
    rfl

end Shapes

/-! ## Local entries -/

section LocalHashes

variable (base : Option StorageObject) (new : List HashSetEntry) (threshold : Option UInt64)

theorem sorted_hashes_normalized (hashes : Multiset HashSetEntry) :
    Normalized (sortedHashes hashes) :=
  Multiset.pairwise_sort _ _

theorem below_search_bound {length : ℕ} (within : length ≤ maxHashSetSize) :
    length < searchBound :=
  lt_of_le_of_lt within (by decide)

theorem local_hashes_normalized : Normalized (localHashes base new threshold) :=
  filter_normalized (sorted_hashes_normalized _) _

theorem local_hashes_coe :
    (localHashes base new threshold : Multiset HashSetEntry) =
      Multiset.filter (fun entry => survives threshold entry = true)
        (↑(Opening.onBase base).hashes + ↑new) := by
  have listed := Multiset.filter_coe (fun entry => survives threshold entry = true)
    (sortedHashes (↑(Opening.onBase base).hashes + ↑new))
  simp only [Bool.decide_eq_true] at listed
  rw [localHashes, ← listed, sortedHashes, Multiset.sort_eq]

variable {base new threshold}

theorem local_hashes_unique {hashes : List HashSetEntry} (sorted : Normalized hashes)
    (same : (hashes : Multiset HashSetEntry) =
      Multiset.filter (fun entry => survives threshold entry = true)
        (↑(Opening.onBase base).hashes + ↑new)) :
    hashes = localHashes base new threshold := by
  apply normalized_unique sorted (local_hashes_normalized base new threshold)
  apply Multiset.coe_eq_coe.mp
  rw [same, local_hashes_coe]

theorem local_hashes_start (sorted : Normalized (Opening.onBase base).hashes) :
    (Opening.onBase base).hashes = localHashes base [] none := by
  apply local_hashes_unique sorted
  rw [Multiset.coe_nil, add_zero, Multiset.filter_eq_self.mpr]
  exact fun _ _ => rfl

theorem local_hashes_insert {hash : HashSetEntry} (kept : survives threshold hash = true) :
    (localHashes base new threshold ++ [hash]).insertionSort notBelow =
      localHashes base (new ++ [hash]) threshold := by
  apply local_hashes_unique
  · exact List.pairwise_insertionSort notBelow _
  · have sorted := List.perm_insertionSort notBelow (localHashes base new threshold ++ [hash])
    have grown := Multiset.filter_add (fun entry => survives threshold entry = true)
      (↑(Opening.onBase base).hashes + ↑new) {hash}
    rw [Multiset.filter_singleton, if_pos kept] at grown
    rw [Multiset.coe_eq_coe.mpr sorted, ← Multiset.coe_add, local_hashes_coe, ← Multiset.coe_add,
      ← add_assoc, Multiset.coe_singleton, grown]

/-- The threshold that `HASH_SET_CLEAR` clears with. -/
def highestThreshold (threshold : UInt64) (earlier : Option UInt64) : UInt64 :=
  match earlier with
  | none => threshold
  | some earlier => max threshold earlier

theorem survives_highest (cleared : UInt64) (entry : HashSetEntry)
    (above : survives (some (highestThreshold cleared threshold)) entry = true) :
    survives threshold entry = true := by
  cases threshold with
  | none => rfl
  | some earlier =>
      simp only [survives, highestThreshold, decide_eq_true_eq, gt_iff_lt] at above ⊢
      have reached := uint64_max_eq cleared earlier
      have order := UInt64.lt_iff_toNat_lt.mp above
      exact UInt64.lt_iff_toNat_lt.mpr (by omega)

theorem local_hashes_clear (cleared : UInt64) :
    (localHashes base new threshold).filter
        (fun entry => entry.index > highestThreshold cleared threshold) =
      localHashes base new (some (highestThreshold cleared threshold)) := by
  unfold localHashes
  rw [List.filter_filter]
  apply List.filter_congr
  intro entry _
  cases above : survives (some (highestThreshold cleared threshold)) entry with
  | false =>
      simp only [survives] at above
      rw [above, Bool.false_and]
  | true =>
      have earlier := survives_highest cleared entry above
      simp only [survives] at above
      rw [above, earlier, Bool.true_and]

theorem clear_hashset_max_size {set result : HashSet} {cleared : UInt64}
    (returned : clearHashset set cleared = .ok result) : result.maxSize = set.maxSize := by
  obtain ⟨med, _, same⟩ := bind_ok_iff.mp returned
  cases same
  rfl

end LocalHashes

/-! ## Every accepted operation keeps the shape -/

section Operations

variable {base : Option StorageObject} {applicator next : ProxyApplicator}

theorem apply_write_view (view : View base applicator) {data : RawMemoryStorage}
    (applied : applyWrite data applicator = .ok (true, next)) : View base next := by
  obtain ⟨object, made, rest⟩ := bind_ok_iff.mp applied
  cases rest
  cases view with
  | untouched =>
      have opened := make_current_untouched made
      rw [opened.fee]
      exact .rawMemory opened.admits data
  | rawMemory admits old =>
      obtain ⟨rfl, _⟩ := make_current_touched rfl made
      exact .rawMemory admits data
  | nonnegativeInt64 => cases (make_current_touched rfl made).2
  | hashSet => cases (make_current_touched rfl made).2
  | asset => cases (make_current_touched rfl made).2

/-- The merge keeps the set value and never overdraws it. -/
theorem make_nnint64_delta_spec {value oldDelta newDelta : Int64} {merged : SetAdd}
    (covered : oldDelta.toInt < 0 → 0 ≤ value.toInt + oldDelta.toInt)
    (returned : makeNnint64Delta value oldDelta newDelta = .ok (some merged)) :
    merged.setValue = value ∧
      (merged.delta.toInt < 0 → 0 ≤ value.toInt + merged.delta.toInt) := by
  have oldLowest := oldDelta.le_toInt
  have oldHighest := oldDelta.toInt_lt
  unfold makeNnint64Delta at returned
  by_cases negative : newDelta < 0
  · rw [if_pos negative] at returned
    by_cases overflows : addOverflowInt64 newDelta.toInt oldDelta.toInt = true
    · rw [if_pos overflows] at returned
      cases returned
    rw [if_neg overflows] at returned
    simp only at returned
    by_cases far : addOverflowInt64 value.toInt (newDelta + oldDelta).toInt = true
    · rw [if_pos far] at returned
      split_ifs at returned with sumNegative valueNegative oldNegative <;> cases returned
      -- The sum leaves the range upwards, so the merged amount is not negative.
      refine ⟨rfl, ?_⟩
      intro mergedNegative
      exact absurd (int64_neg_iff.mpr mergedNegative) sumNegative
    · rw [if_neg far] at returned
      split_ifs at returned with below <;> cases returned
      refine ⟨rfl, ?_⟩
      intro _
      have stays := add_overflow_int64_iff.not.mp far
      have reached := int64_add_exact value (newDelta + oldDelta) (by omega) (by omega)
      have nonnegative := int64_neg_iff.not.mp below
      simp only
      omega
  · rw [if_neg negative] at returned
    have nonnegative := int64_neg_iff.not.mp negative
    cases returned
    refine ⟨rfl, ?_⟩
    simp only
    split_ifs with overflows
    · intro impossible
      have largest : Int64.maxValue.toInt = 2 ^ 63 - 1 := by decide
      omega
    · intro mergedNegative
      have exact_sum := add_overflow_int64_iff.not.mp overflows
      have merged := int64_add_exact newDelta oldDelta (by omega) (by omega)
      have before := covered (by omega)
      omega

theorem current_nnint64_spec {setAdd : SetAdd} {value : Int64}
    (returned : currentNnint64 setAdd = .ok value) :
    value.toInt = min (2 ^ 63 - 1) (setAdd.setValue.toInt + setAdd.delta.toInt) := by
  have zero : (0 : Int64).toInt = 0 := rfl
  unfold currentNnint64 at returned
  split_ifs at returned with overflows positive
  · cases returned
    have largest : Int64.maxValue.toInt = 2 ^ 63 - 1 := by decide
    have leaves := add_overflow_int64_iff.mp overflows
    have grows := Int64.lt_iff_toInt_lt.mp positive
    have lowest := setAdd.setValue.le_toInt
    omega
  · cases returned
    have stays := add_overflow_int64_iff.not.mp overflows
    have sum := int64_add_exact setAdd.setValue setAdd.delta (by omega) (by omega)
    omega

theorem apply_set_add_view (view : View base applicator) {setAdd : SetAdd}
    (applied : applySetAdd setAdd applicator = .ok (true, next)) : View base next := by
  unfold applySetAdd at applied
  simp only at applied
  split_ifs at applied with disagrees
  · cases applied
  obtain ⟨answer, returned, rest⟩ := bind_ok_iff.mp applied
  cases answer with
  | none => cases rest
  | some merged =>
      obtain ⟨object, made, rest⟩ := bind_ok_iff.mp rest
      obtain ⟨value, valued, rest⟩ := bind_ok_iff.mp rest
      cases rest
      have reached := current_nnint64_spec valued
      cases view with
      | untouched =>
          have opened := make_current_untouched made
          have unadded : (0 : Int64).toInt < 0 → 0 ≤ setAdd.setValue.toInt + (0 : Int64).toInt :=
            fun impossible => absurd impossible (by decide)
          have merge := make_nnint64_delta_spec unadded returned
          rw [opened.fee]
          exact .nonnegativeInt64 opened.admits merged value (merge.1 ▸ merge.2) reached
      | nonnegativeInt64 admits old oldValue covered oldValued =>
          obtain ⟨rfl, _⟩ := make_current_touched rfl made
          have same : old.setValue = setAdd.setValue := by simpa using disagrees
          have merge := make_nnint64_delta_spec (same ▸ covered) returned
          exact .nonnegativeInt64 admits merged value (merge.1 ▸ merge.2) reached
      | rawMemory => cases (make_current_touched rfl made).2
      | hashSet => cases (make_current_touched rfl made).2
      | asset => cases (make_current_touched rfl made).2

theorem open_hash_set (view : View base applicator) {object : StorageObject}
    (made : applicator.makeCurrent .hashSet = .ok object) :
    ∃ raised increase new threshold current hashes,
      applicator =
        { ProxyApplicator.onBase base with
          doLimitIncrease := raised
          hsSizeIncrease := increase
          newHashes := new
          hsClearThreshold := threshold
          current := current } ∧
      object =
        { body := .hashSet { hashes := hashes, maxSize := limitWord base }
          escrowedFee := carriedFee base } ∧
      Admits base .hashSet ∧
      (Tidy base → hashes = localHashes base new threshold ∧
        hashes.length ≤ maxHashSetSize) := by
  cases view with
  | untouched =>
      have opened := make_current_untouched made
      obtain ⟨body, fee⟩ := object
      cases body with
      | hashSet set =>
          obtain ⟨hashes, limit⟩ := opened_hash_set opened rfl
          obtain ⟨stored, maxSize⟩ := set
          simp only at hashes limit
          subst hashes limit
          refine ⟨false, 0, [], none, base, (Opening.onBase base).hashes, rfl, ?_,
            opened.admits, ?_⟩
          · rw [← opened.fee]
          · intro tidy
            exact ⟨local_hashes_start tidy.sorted, tidy.short⟩
      | rawMemoryStorage => cases opened.typed
      | nonnegativeInt64 => cases opened.typed
      | unconstrainedInt64 => cases opened.typed
      | asset => cases opened.typed
  | hashSet admits raised increase new threshold hashes touched contents =>
      obtain ⟨rfl, _⟩ := make_current_touched rfl made
      exact ⟨raised, increase, new, threshold, _, hashes, rfl, rfl, admits, contents⟩
  | rawMemory => cases (make_current_touched rfl made).2
  | nonnegativeInt64 => cases (make_current_touched rfl made).2
  | asset => cases (make_current_touched rfl made).2

theorem apply_insert_view (view : View base applicator) {hash : HashSetEntry}
    (applied : applyInsert hash applicator = .ok (true, next)) : View base next := by
  obtain ⟨object, made, rest⟩ := bind_ok_iff.mp applied
  obtain ⟨raised, increase, new, threshold, current, hashes, rfl, rfl, admits, contents⟩ :=
    open_hash_set view made
  obtain ⟨set, read, rest⟩ := bind_ok_iff.mp rest
  cases read
  simp only at rest
  split_ifs at rest with present full cleared <;> cases rest
  apply View.hashSet admits raised increase (new ++ [hash]) threshold
  · exact Or.inr (Or.inl (List.append_ne_nil_of_right_ne_nil _ (List.cons_ne_nil _ _)))
  · intro tidy
    obtain ⟨same, within⟩ := contents tidy
    have kept : survives threshold hash = true := by
      cases threshold with
      | none => rfl
      | some limit =>
          simp only [decide_eq_true_eq, ge_iff_le] at cleared
          simp only [survives, decide_eq_true_eq, gt_iff_lt]
          exact UInt64.not_le.mp cleared
    subst same
    refine ⟨local_hashes_insert kept, ?_⟩
    have counted :=
      (List.perm_insertionSort notBelow (localHashes base new threshold ++ [hash])).length_eq
    rw [List.length_append, List.length_singleton] at counted
    have bounded := tidy.bounded
    rw [counted]
    omega

theorem apply_increase_limit_view (view : View base applicator) {limitIncrease : UInt32}
    (applied : applyIncreaseLimit limitIncrease applicator = .ok (true, next)) :
    View base next := by
  obtain ⟨object, made, rest⟩ := bind_ok_iff.mp applied
  obtain ⟨raised, increase, new, threshold, current, hashes, rfl, rfl, admits, contents⟩ :=
    open_hash_set view made
  cases rest
  exact .hashSet admits true _ new threshold hashes (Or.inl rfl) contents

theorem apply_clear_view (view : View base applicator) {threshold : UInt64}
    (applied : applyClear threshold applicator = .ok (true, next)) : View base next := by
  obtain ⟨object, made, rest⟩ := bind_ok_iff.mp applied
  obtain ⟨raised, increase, new, earlier, current, hashes, rfl, rfl, admits, contents⟩ :=
    open_hash_set view made
  obtain ⟨set, read, rest⟩ := bind_ok_iff.mp rest
  cases read
  obtain ⟨cleared, returned, rest⟩ := bind_ok_iff.mp rest
  cases rest
  have limit := clear_hashset_max_size returned
  obtain ⟨left, maxSize⟩ := cleared
  simp only at limit
  subst limit
  apply View.hashSet admits raised increase new (some (highestThreshold threshold earlier)) left
  · exact Or.inr (Or.inr (Option.some_ne_none _))
  · intro tidy
    obtain ⟨same, within⟩ := contents tidy
    subst same
    have short := below_search_bound within
    have sorted := local_hashes_normalized base new earlier
    have filtered : clearHashset
        { hashes := localHashes base new earlier, maxSize := limitWord base }
        (highestThreshold threshold earlier) = _ :=
      clear_hashset_filter (highestThreshold threshold earlier) sorted short
    rw [local_hashes_clear] at filtered
    have result := returned.symm.trans filtered
    cases result
    refine ⟨rfl, ?_⟩
    rw [← local_hashes_clear]
    exact (List.length_filter_le _ _).trans within

theorem apply_asset_add_view (view : View base applicator) {d : Int64}
    (applied : applyAssetAdd d applicator = .ok (true, next)) : View base next := by
  obtain ⟨object, made, rest⟩ := bind_ok_iff.mp applied
  obtain ⟨asset, read, rest⟩ := bind_ok_iff.mp rest
  cases view with
  | untouched =>
      have opened := make_current_untouched made
      obtain ⟨body, fee⟩ := object
      obtain rfl : fee = carriedFee base := opened.fee
      cases body with
      | asset stored =>
          cases read
          have amount := opened_asset opened rfl
          simp only at rest
          split_ifs at rest with never overflows <;> cases rest
          have stays := add_overflow_uint64_iff.not.mp overflows
          have sum := uint64_add_signed asset.amount d (by omega) (by omega)
          apply View.asset opened.admits d
          rw [sum, amount]
      | rawMemoryStorage => cases opened.typed
      | nonnegativeInt64 => cases opened.typed
      | unconstrainedInt64 => cases opened.typed
      | hashSet => cases opened.typed
  | asset admits earlier amount total =>
      obtain ⟨rfl, _⟩ := make_current_touched rfl made
      cases read
      simp only at rest
      split_ifs at rest with unmerged overflows <;> cases rest
      have merged := add_overflow_int64_iff.not.mp unmerged
      have stays := add_overflow_uint64_iff.not.mp overflows
      have both := int64_add_exact earlier d (by omega) (by omega)
      have sum := uint64_add_signed amount d (by omega) (by omega)
      apply View.asset admits (earlier + d)
      rw [sum, total, both]
      ring
  | rawMemory => cases (make_current_touched rfl made).2
  | nonnegativeInt64 => cases (make_current_touched rfl made).2
  | hashSet => cases (make_current_touched rfl made).2

inductive Seen (base : Option StorageObject) : ProxyApplicator → Prop
  | view {applicator : ProxyApplicator} (view : View base applicator) : Seen base applicator
  | deleted {applicator : ProxyApplicator} (view : View base applicator) :
      Seen base { applicator with isDeleted := true, current := none }

theorem view_not_deleted (view : View base applicator) : applicator.isDeleted = false := by
  cases view <;> rfl

theorem apply_typed_view (view : View base applicator) {d : StorageDelta}
    (applied : applyTyped d applicator = .ok (true, next)) : View base next := by
  cases d with
  | rawMemoryWrite data => exact apply_write_view view applied
  | nonnegativeInt64SetAdd setAdd => exact apply_set_add_view view applied
  | hashSetInsert hash => exact apply_insert_view view applied
  | hashSetIncreaseLimit limitIncrease => exact apply_increase_limit_view view applied
  | hashSetClear threshold => exact apply_clear_view view applied
  | assetObjectAdd assetDelta => exact apply_asset_add_view view applied
  | deleteLast => cases applied
  | unconstrainedInt64SetAdd setAdd => cases applied
  | unconstrainedInt64SetMax setMax => cases applied
  | unconstrainedInt64SetXor setXor => cases applied

/-- An accepted operation deletes the object or passes the switch. -/
inductive Applied (applicator : ProxyApplicator) : StorageDelta → ProxyApplicator → Prop
  | deleted : Applied applicator .deleteLast { applicator with isDeleted := true, current := none }
  | typed {d : StorageDelta} {next : ProxyApplicator} (present : applicator.isDeleted = false)
      (applied : applyTyped d applicator = .ok (true, next)) : Applied applicator d next

theorem try_apply_cases {d : StorageDelta}
    (accepted : applicator.tryApply d = .ok (true, next)) : Applied applicator d next := by
  unfold tryApply at accepted
  split_ifs at accepted with last gone
  · cases accepted
    rw [last]
    exact .deleted
  · cases accepted
  · obtain ⟨allowed, _, applied⟩ := bind_ok_iff.mp accepted
    split_ifs at applied
    · exact .typed (Bool.not_eq_true _ ▸ gone) applied
    · cases applied

theorem try_apply_seen (seen : Seen base applicator) {d : StorageDelta}
    (accepted : applicator.tryApply d = .ok (true, next)) : Seen base next := by
  cases try_apply_cases accepted with
  | deleted =>
      cases seen with
      | view view => exact .deleted view
      | deleted view =>
          have again := Seen.deleted view
          exact again
  | typed present applied =>
      cases seen with
      | view view => exact .view (apply_typed_view view applied)
      | deleted view => cases present

theorem apply_all_seen (ops : List StorageDelta) (seen : Seen base applicator)
    (accepted : applyAll ops applicator = .ok (true, next)) : Seen base next := by
  induction ops generalizing applicator with
  | nil =>
      cases accepted
      exact seen
  | cons d rest induction =>
      obtain ⟨⟨answer, middle⟩, first, later⟩ := bind_ok_iff.mp accepted
      cases answer with
      | false => cases later
      | true => exact induction (try_apply_seen seen first) later

end Operations

end Scs
