import Scs.Object.Alone
import Scs.StorageProxy.LocalView

/-!
# Local acceptance and acceptance by the state

The deltas of an accepted local view have room on a new object up to three
limits that the local view does not count: the 8-bit count of open rewinds, the
room that a clear frees locally but not in the block, and the slots of the
new-hash table.
-/

namespace Scs

set_option autoImplicit false

open HashSetEntry Ledger Lockstep ProxyApplicator Words

def StorageDelta.raisesLimit : StorageDelta → Bool
  | .hashSetIncreaseLimit _ => true
  | _ => false

/-! ## What the view counts -/

section Counts

variable {applicator next : ProxyApplicator}

structure Counted (ops : List StorageDelta) (before after : ProxyApplicator) : Prop where
  inserted : after.newHashes = before.newHashes ++ ops.filterMap StorageDelta.inserted?
  raised : after.doLimitIncrease = (before.doLimitIncrease || ops.any StorageDelta.raisesLimit)
  cleared : after.hsClearThreshold.isSome =
    (before.hsClearThreshold.isSome || ops.any StorageDelta.isClear)

theorem counted_same {d : StorageDelta} (no_insert : d.inserted? = none)
    (no_raise : d.raisesLimit = false) (no_clear : d.isClear = false)
    (hashes : next.newHashes = applicator.newHashes)
    (raised : next.doLimitIncrease = applicator.doLimitIncrease)
    (cleared : next.hsClearThreshold = applicator.hsClearThreshold) :
    Counted [d] applicator next where
  inserted := by
    rw [hashes, List.filterMap_cons_none no_insert, List.filterMap_nil, List.append_nil]
  raised := by rw [raised, List.any_cons, no_raise, List.any_nil, Bool.or_false, Bool.or_false]
  cleared := by rw [cleared, List.any_cons, no_clear, List.any_nil, Bool.or_false, Bool.or_false]

theorem try_apply_counted {d : StorageDelta}
    (accepted : applicator.tryApply d = .ok (true, next)) : Counted [d] applicator next := by
  cases try_apply_cases accepted with
  | deleted => exact counted_same rfl rfl rfl rfl rfl rfl
  | typed present applied =>
      cases d with
      | rawMemoryWrite data =>
          obtain ⟨object, _, rest⟩ := bind_ok_iff.mp applied
          cases rest
          exact counted_same rfl rfl rfl rfl rfl rfl
      | nonnegativeInt64SetAdd setAdd =>
          simp only [applyTyped, applySetAdd] at applied
          split_ifs at applied
          · cases applied
          obtain ⟨answer, _, rest⟩ := bind_ok_iff.mp applied
          cases answer with
          | none => cases rest
          | some merged =>
              obtain ⟨object, _, rest⟩ := bind_ok_iff.mp rest
              obtain ⟨value, _, rest⟩ := bind_ok_iff.mp rest
              cases rest
              exact counted_same rfl rfl rfl rfl rfl rfl
      | hashSetInsert hash =>
          obtain ⟨object, _, rest⟩ := bind_ok_iff.mp applied
          obtain ⟨set, _, rest⟩ := bind_ok_iff.mp rest
          simp only at rest
          split_ifs at rest <;> cases rest
          exact ⟨rfl, (Bool.or_false _).symm, (Bool.or_false _).symm⟩
      | hashSetIncreaseLimit limitIncrease =>
          obtain ⟨object, _, rest⟩ := bind_ok_iff.mp applied
          cases rest
          exact ⟨(List.append_nil _).symm, (Bool.or_true _).symm, (Bool.or_false _).symm⟩
      | hashSetClear threshold =>
          obtain ⟨object, _, rest⟩ := bind_ok_iff.mp applied
          obtain ⟨set, _, rest⟩ := bind_ok_iff.mp rest
          obtain ⟨left, _, rest⟩ := bind_ok_iff.mp rest
          cases rest
          exact ⟨(List.append_nil _).symm, (Bool.or_false _).symm, (Bool.or_true _).symm⟩
      | assetObjectAdd assetDelta =>
          obtain ⟨object, _, rest⟩ := bind_ok_iff.mp applied
          obtain ⟨asset, _, rest⟩ := bind_ok_iff.mp rest
          simp only at rest
          split_ifs at rest <;> cases rest
          all_goals exact counted_same rfl rfl rfl rfl rfl rfl
      | deleteLast => cases applied
      | unconstrainedInt64SetAdd setAdd => cases applied
      | unconstrainedInt64SetMax setMax => cases applied
      | unconstrainedInt64SetXor setXor => cases applied

theorem apply_all_counted (ops : List StorageDelta)
    (accepted : applyAll ops applicator = .ok (true, next)) : Counted ops applicator next := by
  induction ops generalizing applicator with
  | nil =>
      cases accepted
      exact ⟨(List.append_nil _).symm, (Bool.or_false _).symm, (Bool.or_false _).symm⟩
  | cons d rest induction =>
      obtain ⟨⟨answer, middle⟩, first, later⟩ := bind_ok_iff.mp accepted
      cases answer with
      | false => cases later
      | true =>
          have here := try_apply_counted first
          have there := induction later
          constructor
          · rw [there.inserted, here.inserted, List.append_assoc, ← List.filterMap_append]
            rfl
          · rw [there.raised, here.raised, List.any_cons, List.any_cons, List.any_nil,
              Bool.or_false, Bool.or_assoc]
          · rw [there.cleared, here.cleared, List.any_cons, List.any_cons, List.any_nil,
              Bool.or_false, Bool.or_assoc]

end Counts

/-! ## The deltas of a view -/

/-- The deltas that a view has merged, before the deletion at the end. -/
def mergedDeltas (applicator : ProxyApplicator) : List StorageDelta :=
  (applicator.memoryWrite.map makeRawMemoryWrite).toList ++
  (applicator.nnint64Delta.map fun setAdd =>
    makeNonnegativeInt64SetAdd setAdd.setValue setAdd.delta).toList ++
  (if applicator.doLimitIncrease then [makeHashSetIncreaseLimit applicator.limitIncrease]
    else []) ++
  applicator.newHashes.map makeHashSetInsert ++
  (applicator.hsClearThreshold.map makeHashSetClear).toList ++
  (applicator.delta.map makeAssetAdd).toList

def hashSetDeltas (raised : Option UInt16) (new : List HashSetEntry)
    (threshold : Option UInt64) : List StorageDelta :=
  (raised.map makeHashSetIncreaseLimit).toList ++ new.map makeHashSetInsert ++
    (threshold.map makeHashSetClear).toList

section Deltas

variable {base : Option StorageObject} {applicator : ProxyApplicator}

theorem get_deltas_view (view : View base applicator) :
    applicator.getDeltas = mergedDeltas applicator := by
  cases view with
  | untouched => cases base <;> rfl
  | rawMemory => exact List.append_nil _
  | nonnegativeInt64 => exact List.append_nil _
  | hashSet => exact List.append_nil _
  | asset => exact List.append_nil _

theorem merged_hash_set (base : Option StorageObject) (raised : Bool) (increase : UInt64)
    (new : List HashSetEntry) (threshold : Option UInt64) (current : Option StorageObject) :
    ∃ limit : Option UInt16, limit.isSome = raised ∧
      mergedDeltas
        { ProxyApplicator.onBase base with
          doLimitIncrease := raised
          hsSizeIncrease := increase
          newHashes := new
          hsClearThreshold := threshold
          current := current } = hashSetDeltas limit new threshold := by
  cases raised with
  | true => exact ⟨some _, rfl, List.append_nil _⟩
  | false => exact ⟨none, rfl, List.append_nil _⟩

theorem inserted_entries (new : List HashSetEntry) :
    (new.map makeHashSetInsert).filterMap StorageDelta.inserted? = new := by
  rw [List.filterMap_map]
  exact List.filterMap_some

theorem merged_deltas_inserted (applicator : ProxyApplicator) :
    (mergedDeltas applicator).filterMap StorageDelta.inserted? = applicator.newHashes := by
  have none_written : ((applicator.memoryWrite.map makeRawMemoryWrite).toList).filterMap
      StorageDelta.inserted? = [] := by
    cases applicator.memoryWrite <;> rfl
  have none_set : ((applicator.nnint64Delta.map fun setAdd =>
      makeNonnegativeInt64SetAdd setAdd.setValue setAdd.delta).toList).filterMap
      StorageDelta.inserted? = [] := by
    cases applicator.nnint64Delta <;> rfl
  have none_raised : (if applicator.doLimitIncrease then
      [makeHashSetIncreaseLimit applicator.limitIncrease] else []).filterMap
      StorageDelta.inserted? = [] := by
    cases applicator.doLimitIncrease <;> rfl
  have none_cleared : ((applicator.hsClearThreshold.map makeHashSetClear).toList).filterMap
      StorageDelta.inserted? = [] := by
    cases applicator.hsClearThreshold <;> rfl
  have none_added : ((applicator.delta.map makeAssetAdd).toList).filterMap
      StorageDelta.inserted? = [] := by
    cases applicator.delta <;> rfl
  simp only [mergedDeltas, List.filterMap_append, none_written, none_set, none_raised,
    none_cleared, none_added, inserted_entries, List.nil_append, List.append_nil]

theorem get_deltas_deleted :
    ({ applicator with isDeleted := true, current := none } : ProxyApplicator).getDeltas =
      mergedDeltas applicator ++ [.deleteLast] := rfl

/-! ## Room for the deltas of a view -/

/-- The new entries fit the object: the count of open rewinds, the limit of the
committed set, its entries and the slots of the table. -/
structure EntriesFit (base : Option StorageObject) (new : List HashSetEntry)
    (raised cleared : Bool) : Prop where
  holders : new.length + raised.toNat + cleared.toNat ≤ 256
  room : new ≠ [] →
    (Opening.onBase base).hashes.length + new.length ≤ (Opening.onBase base).limit
  unseen : ∀ hash ∈ new, hash ∉ (Opening.onBase base).hashes
  distinct : new.Nodup
  slots : new.length ≤ (RevertableObject.onBase base).newHashes.capacity.toNat

theorem entries_fit_none : EntriesFit base [] false false where
  holders := Nat.zero_le _
  room empty := absurd rfl empty
  unseen _ impossible := absurd impossible List.not_mem_nil
  distinct := List.nodup_nil
  slots := Nat.zero_le _

theorem room_single {delta : StorageDelta}
    (affordable : Affordable (.onBase base) 0 0 delta) (no_insert : delta.inserted? = none) :
    Room base 0 ↑[delta] 0 := by
  have alone : (↑[delta] : Multiset StorageDelta) + live 0 0 = delta ::ₘ 0 := rfl
  constructor
  · rw [alone]
    exact solvent_cons_of_affordable (solvent_zero _) affordable
  · left
    have counted := Multiset.countP_le_card
      (fun delta : StorageDelta => delta.class?.isSome = true) ↑[delta]
    rw [Multiset.coe_card, List.length_singleton] at counted
    have nobody : holderCount 0 = 0 := rfl
    omega
  · rw [alone, inserts_skip no_insert]
    exact Nat.zero_le _

/-- On an empty ledger a delta is compatible when the object admits its type. -/
theorem compatible_first {delta : StorageDelta} {type : ObjectType} (admits : Admits base type)
    (implemented : delta.implemented = true)
    (typed : ∀ value, delta.class? = some value → value.type = type) :
    Compatible (.onBase base) 0 delta where
  implemented := implemented
  allowed value own required same := (typed value own).trans (admits required same).symm
  agreed _ _ _ impossible := absurd impossible (Multiset.notMem_zero _)

theorem room_write (admits : Admits base .rawMemory) (data : RawMemoryStorage) :
    Room base 0 ↑[makeRawMemoryWrite data] 0 := by
  have compatible : Compatible (.onBase base) 0 (makeRawMemoryWrite data) := by
    apply compatible_first admits rfl
    intro value own
    cases own
    rfl
  exact room_single (affordable_of_weightless (solvent_zero _) compatible rfl rfl rfl rfl) rfl

theorem room_set_add (admits : Admits base .nonnegativeInt64) (setAdd : SetAdd)
    (covered : setAdd.delta.toInt < 0 → 0 ≤ setAdd.setValue.toInt + setAdd.delta.toInt) :
    Room base 0 ↑[makeNonnegativeInt64SetAdd setAdd.setValue setAdd.delta] 0 := by
  have compatible : Compatible (.onBase base) 0 (.nonnegativeInt64SetAdd setAdd) := by
    apply compatible_first admits rfl
    intro value own
    cases own
    rfl
  apply room_single _ rfl
  refine ⟨compatible, ?_, ?_, (solvent_zero _).assetLower, ?_⟩
  · intro other same negative
    cases same
    have bound := covered negative
    have amount : (makeNonnegativeInt64SetAdd setAdd.setValue setAdd.delta).withdrawal =
      (-setAdd.delta.toInt).toNat := rfl
    simp only at negative
    rw [amount, total_zero]
    simp only
    omega
  · intro hash impossible
    cases impossible
  · have upper := (solvent_zero (Opening.onBase base)).assetUpper
    exact upper

theorem room_asset (admits : Admits base .knownSupplyAsset) {sum : Int64} {amount : UInt64}
    (total : (amount.toNat : ℤ) = (assetAmount base).toNat + sum.toInt) :
    Room base 0 ↑[makeAssetAdd sum] 0 := by
  have compatible : Compatible (.onBase base) 0 (makeAssetAdd sum) := by
    apply compatible_first admits rfl
    intro value own
    cases own
    rfl
  have supply : (Opening.onBase base).supply = assetAmount base := rfl
  have bounded := amount.toNat_lt
  have start := (assetAmount base).toNat_lt
  apply room_single _ rfl
  refine ⟨compatible, ?_, ?_, ?_, ?_⟩
  · intro other impossible
    cases impossible
  · intro hash impossible
    cases impossible
  · simp only [makeAssetAdd, StorageDelta.assetOut, total_zero, supply]
    omega
  · simp only [makeAssetAdd, StorageDelta.assetIn, total_zero, supply]
    omega

theorem hash_set_deltas_class {raised : Option UInt16} {new : List HashSetEntry}
    {threshold : Option UInt64} {delta : StorageDelta}
    (member : delta ∈ hashSetDeltas raised new threshold) : delta.class? = some .hashSet := by
  simp only [hashSetDeltas, List.mem_append, Option.mem_toList, List.mem_map,
    Option.map_eq_some_iff] at member
  rcases member with (⟨limit, _, rfl⟩ | ⟨hash, _, rfl⟩) | ⟨limit, _, rfl⟩ <;> rfl

theorem hash_set_deltas_inserts (raised : Option UInt16) (new : List HashSetEntry)
    (threshold : Option UInt64) : inserts ↑(hashSetDeltas raised new threshold) = ↑new := by
  have listed : (hashSetDeltas raised new threshold).filterMap StorageDelta.inserted? = new := by
    rw [hashSetDeltas, List.filterMap_append, List.filterMap_append, inserted_entries]
    cases raised <;> cases threshold <;> exact List.append_nil new
  exact congrArg Multiset.ofList listed

theorem hash_set_deltas_count (raised : Option UInt16) (new : List HashSetEntry)
    (threshold : Option UInt64) :
    Multiset.countP (fun delta : StorageDelta => delta.class?.isSome = true)
        ↑(hashSetDeltas raised new threshold) =
      new.length + raised.isSome.toNat + threshold.isSome.toNat := by
  have every : ∀ delta ∈ (hashSetDeltas raised new threshold : Multiset StorageDelta),
      delta.class?.isSome = true := by
    intro delta member
    rw [hash_set_deltas_class (Multiset.mem_coe.mp member)]
    rfl
  rw [Multiset.countP_eq_card.mpr every, Multiset.coe_card, hashSetDeltas, List.length_append,
    List.length_append, List.length_map]
  cases raised <;> cases threshold <;>
    simp only [Option.map, Option.toList, List.length_nil, List.length_singleton, Option.isSome,
      Bool.toNat, cond_true, cond_false] <;> omega

theorem hash_set_solvent_iff (admits : Admits base .hashSet) (raised : Option UInt16)
    (new : List HashSetEntry) (threshold : Option UInt64) :
    Solvent (.onBase base) ↑(hashSetDeltas raised new threshold) 0 ↔
      (new ≠ [] →
        (Opening.onBase base).hashes.length + new.length ≤ (Opening.onBase base).limit) ∧
      (∀ hash ∈ new, hash ∉ (Opening.onBase base).hashes) ∧ new.Nodup := by
  have inserted := hash_set_deltas_inserts raised new threshold
  have classed : ∀ delta ∈ (hashSetDeltas raised new threshold : Multiset StorageDelta),
      delta.class? = some .hashSet :=
    fun delta member => hash_set_deltas_class (Multiset.mem_coe.mp member)
  constructor
  · intro solvent
    have room := solvent.room
    have unseen := solvent.unseen
    have distinct := solvent.distinct
    rw [inserted] at room unseen distinct
    refine ⟨?_, unseen, Multiset.coe_nodup.mp distinct⟩
    intro nonempty
    exact room (mt (Multiset.coe_eq_zero new).mp nonempty)
  · intro ⟨room, unseen, distinct⟩
    have weightless : ∀ delta ∈ (hashSetDeltas raised new threshold : Multiset StorageDelta),
        delta.implemented = true ∧ delta.assetOut = 0 ∧ delta.assetIn = 0 := by
      intro delta member
      have own := classed delta member
      cases delta <;> first | exact ⟨rfl, rfl, rfl⟩ | cases own
    have noOut := total_eq_zero fun delta member => (weightless delta member).2.1
    have noIn := total_eq_zero fun delta member => (weightless delta member).2.2
    constructor
    · exact fun delta member => (weightless delta member).1
    · intro delta member value own required same
      rw [classed delta member] at own
      cases own
      exact (admits required same).symm
    · intro delta member other otherMember value own otherValue otherOwn
      rw [classed delta member] at own
      rw [classed other otherMember] at otherOwn
      exact Option.some_inj.mp (own.symm.trans otherOwn)
    · intro setAdd member
      cases classed _ member
    · rw [inserted]
      intro nonempty
      exact room (mt (Multiset.coe_eq_zero new).mpr nonempty)
    · rw [inserted]
      exact unseen
    · rw [inserted]
      exact Multiset.coe_nodup.mpr distinct
    · rw [noOut]
      exact Nat.zero_le _
    · rw [noIn]
      exact (solvent_zero (Opening.onBase base)).assetUpper

theorem room_hash_set_iff (admits : Admits base .hashSet) (raised : Option UInt16)
    (new : List HashSetEntry) (threshold : Option UInt64) :
    Room base 0 ↑(hashSetDeltas raised new threshold) 0 ↔
      EntriesFit base new raised.isSome threshold.isSome := by
  have alone : ∀ deltas : Multiset StorageDelta, deltas + live 0 0 = deltas := by
    intro deltas
    rw [live_none, add_zero]
  have solvent := hash_set_solvent_iff admits raised new threshold
  have counted := hash_set_deltas_count raised new threshold
  have inserted := hash_set_deltas_inserts raised new threshold
  have nobody : holderCount 0 = 0 := rfl
  constructor
  · intro fits
    have solvency := fits.solvent
    have slots := fits.slots
    rw [alone] at solvency slots
    rw [inserted, Multiset.coe_card] at slots
    obtain ⟨room, unseen, distinct⟩ := solvent.mp solvency
    refine ⟨?_, room, unseen, distinct, slots⟩
    rcases fits.holders with few | decided
    · rw [counted, nobody] at few
      exact few
    · obtain ⟨delta, impossible, _⟩ := decided
      exact absurd impossible (Multiset.notMem_zero delta)
  · intro fits
    constructor
    · rw [alone]
      exact solvent.mpr ⟨fits.room, fits.unseen, fits.distinct⟩
    · left
      rw [counted, nobody]
      exact fits.holders
    · rw [alone, inserted, Multiset.coe_card]
      exact fits.slots

theorem room_view_iff (view : View base applicator) :
    Room base 0 ↑(mergedDeltas applicator) 0 ↔
      EntriesFit base applicator.newHashes applicator.doLimitIncrease
        applicator.hsClearThreshold.isSome := by
  cases view with
  | untouched =>
      have start : Midway (fun _ => 0) base 0 0 (.onBase base) := midway_start
      have room : Room base 0 0 0 := midway_room start
      exact ⟨fun _ => entries_fit_none, fun _ => room⟩
  | rawMemory admits data => exact ⟨fun _ => entries_fit_none, fun _ => room_write admits data⟩
  | nonnegativeInt64 admits setAdd value covered valued =>
      exact ⟨fun _ => entries_fit_none, fun _ => room_set_add admits setAdd covered⟩
  | asset admits sum amount total =>
      exact ⟨fun _ => entries_fit_none, fun _ => room_asset admits total⟩
  | hashSet admits raised increase new threshold hashes touched contents =>
      obtain ⟨limit, same, merged⟩ := merged_hash_set base raised increase new threshold _
      rw [merged, ← same]
      exact room_hash_set_iff admits limit new threshold

theorem room_delete_iff (deltas : List StorageDelta) :
    Room base 0 ↑(deltas ++ [StorageDelta.deleteLast]) 0 ↔ Room base 0 ↑deltas 0 := by
  have shuffled : (↑(deltas ++ [StorageDelta.deleteLast]) : Multiset StorageDelta) =
      .deleteLast ::ₘ ↑deltas :=
    Multiset.coe_eq_coe.mpr (List.perm_append_singleton _ _)
  have counted : Multiset.countP (fun delta : StorageDelta => delta.class?.isSome = true)
      (.deleteLast ::ₘ ↑deltas) =
        Multiset.countP (fun delta : StorageDelta => delta.class?.isSome = true) ↑deltas := by
    apply Multiset.countP_cons_of_neg
    exact Bool.false_ne_true
  have inserted : inserts (.deleteLast ::ₘ (↑deltas + live 0 0)) = inserts (↑deltas + live 0 0) :=
    inserts_skip rfl _
  rw [shuffled]
  constructor
  · intro room
    have solvent := room.solvent
    have holders := room.holders
    have slots := room.slots
    rw [Multiset.cons_add] at solvent slots
    rw [counted] at holders
    rw [inserted] at slots
    exact ⟨solvent_mono solvent (Multiset.le_cons_self _ _) (le_refl _), holders, slots⟩
  · intro room
    have compatible : Compatible (.onBase base) (↑deltas + live 0 0) .deleteLast := by
      constructor
      · rfl
      · intro value impossible
        cases impossible
      · intro value impossible
        cases impossible
    have affordable := affordable_of_weightless room.solvent compatible rfl rfl rfl rfl
    constructor
    · rw [Multiset.cons_add]
      exact solvent_cons_of_affordable room.solvent affordable
    · rw [counted]
      exact room.holders
    · rw [Multiset.cons_add, inserted]
      exact room.slots

end Deltas

/-! ## Accepted locally, accepted by the state -/

/-- The counts that the local view does not keep: the operations fit the 8-bit count
of open rewinds, the committed entries leave room for the new ones, the table has a slot
for each, and the pushing thread, which has allocated so many entries, one for each. -/
structure FitsAlone (base : Option StorageObject) (allocated : ℕ) (ops : List StorageDelta) :
    Prop where
  entries : EntriesFit base (ops.filterMap StorageDelta.inserted?)
    (ops.any StorageDelta.raisesLimit) (ops.any StorageDelta.isClear)
  indices : (ops.filterMap StorageDelta.inserted?).length ≤ allocSize - allocated

section Acceptance

variable (cryptoShorthash : CryptoShorthash)

/-- Alone on a new object, the deltas of an accepted view are accepted exactly when its
new entries fit. -/
theorem push_view_iff {allocated : ℕ} {base : Option StorageObject} {ops : List StorageDelta}
    {applicator : ProxyApplicator}
    (accepted : applyAll ops (ProxyApplicator.onBase base) = .ok (true, applicator)) :
    (Room base 0 ↑applicator.getDeltas 0 ∧
        (inserts ↑applicator.getDeltas).card ≤ allocSize - allocated) ↔
      EntriesFit base applicator.newHashes applicator.doLimitIncrease
          applicator.hsClearThreshold.isSome ∧
        applicator.newHashes.length ≤ allocSize - allocated := by
  cases apply_all_seen ops (.view .untouched) accepted with
  | view view =>
      have inserted : inserts ↑(mergedDeltas applicator) = ↑applicator.newHashes :=
        congrArg Multiset.ofList (merged_deltas_inserted applicator)
      rw [get_deltas_view view, room_view_iff view, inserted, Multiset.coe_card]
  | @deleted before view =>
      have inserted : inserts ↑(mergedDeltas before ++ [StorageDelta.deleteLast]) =
          ↑before.newHashes := by
        apply congrArg Multiset.ofList
        rw [List.filterMap_append, merged_deltas_inserted]
        exact List.append_nil _
      rw [get_deltas_deleted, room_delete_iff, inserted, Multiset.coe_card]
      exact and_congr_left fun _ => room_view_iff view

/-- The deltas of an accepted local view are accepted in full on a new object
exactly when the operations fit alone. -/
theorem local_acceptance_iff (base : Option StorageObject) (ops : List StorageDelta)
    (applicator : ProxyApplicator) (allocated : ℕ) (calls : List (CallIds × StorageDelta))
    (accepted : applyAll ops (ProxyApplicator.onBase base) = .ok (true, applicator))
    (listed : calls.map Prod.snd = applicator.getDeltas) :
    (∃ granted after,
      pushDeltas cryptoShorthash allocated calls (RevertableObject.onBase base) =
        .ok (true, granted, after)) ↔ FitsAlone base allocated ops := by
  have counted := apply_all_counted ops accepted
  rw [push_alone_iff, listed, push_view_iff accepted, counted.inserted, counted.raised,
    counted.cleared]
  exact ⟨fun fits => ⟨fits.1, fits.2⟩, fun fits => ⟨fits.entries, fits.indices⟩⟩

theorem local_acceptance_iff_insert :
    (∃ granted after, pushDeltas (fun _ => 0) 0
      [(CallIds.first, .hashSetIncreaseLimit 4),
        (CallIds.first, .hashSetInsert { hash := 0, index := 2 })]
      (RevertableObject.onBase none) = .ok (true, granted, after)) ↔
    FitsAlone none 0 [.hashSetInsert { hash := 0, index := 2 }, .hashSetIncreaseLimit 4] :=
  local_acceptance_iff (fun _ => 0) none
    [.hashSetInsert { hash := 0, index := 2 }, .hashSetIncreaseLimit 4] _ 0 _ rfl rfl

def emptySet (maxSize : UInt32) : StorageObject where
  body := .hashSet { hashes := [], maxSize := maxSize }
  escrowedFee := 0

def afterInserts (maxSize : UInt32) (hashes new : List HashSetEntry) : ProxyApplicator :=
  { ProxyApplicator.onBase (some (emptySet maxSize)) with
    newHashes := new
    current := some
      { body := .hashSet { hashes := hashes, maxSize := maxSize }, escrowedFee := 0 } }

theorem after_inserts_deltas (maxSize : UInt32) (hashes new : List HashSetEntry) :
    (afterInserts maxSize hashes new).getDeltas = hashSetDeltas none new none :=
  (List.append_nil _).trans (List.append_nil _)

theorem insert_accepted_locally {maxSize : UInt32} {hash : HashSetEntry}
    {hashes : List HashSetEntry} (new : List HashSetEntry) (unseen : hash ∉ hashes)
    (room : hashes.length < maxSize.toNat) :
    (afterInserts maxSize hashes new).tryApply (makeHashSetInsert hash) =
      .ok (true, afterInserts maxSize ((hashes ++ [hash]).insertionSort notBelow)
        (new ++ [hash])) := by
  apply bind_ok_iff.mpr
  refine ⟨true, rfl, bind_ok_iff.mpr ⟨_, rfl, bind_ok_iff.mpr ⟨_, rfl, ?_⟩⟩⟩
  apply (if_neg unseen).trans
  exact (if_neg (Nat.not_le.mpr room)).trans rfl

theorem inserts_accepted_locally (maxSize : UInt32) (rest hashes new : List HashSetEntry)
    (same : hashes.Perm new) (distinct : (new ++ rest).Nodup)
    (room : new.length + rest.length ≤ maxSize.toNat) :
    ∃ last, applyAll (rest.map makeHashSetInsert) (afterInserts maxSize hashes new) =
      .ok (true, afterInserts maxSize last (new ++ rest)) := by
  induction rest generalizing hashes new with
  | nil =>
      rw [List.append_nil]
      exact ⟨hashes, rfl⟩
  | cons hash rest induction =>
      have counted := same.length_eq
      have unseen : hash ∉ hashes := by
        intro seen
        have apart := List.disjoint_of_nodup_append distinct
        exact apart (same.mem_iff.mp seen) List.mem_cons_self
      rw [List.append_cons] at distinct ⊢
      rw [List.length_cons] at room
      have grown : ((hashes ++ [hash]).insertionSort notBelow).Perm (new ++ [hash]) :=
        (List.perm_insertionSort notBelow _).trans (same.append_right [hash])
      have longer : (new ++ [hash]).length + rest.length ≤ maxSize.toNat := by
        rw [List.length_append, List.length_singleton]
        omega
      obtain ⟨last, accepted⟩ := induction _ _ grown distinct longer
      have below : hashes.length < maxSize.toNat := by omega
      have inserted := insert_accepted_locally new unseen below
      refine ⟨last, ?_⟩
      rw [List.map_cons, applyAll, inserted]
      exact accepted

def manyEntries : List HashSetEntry :=
  (List.range 257).map fun position => { hash := 0, index := UInt64.ofNat position }

theorem many_entries_length : manyEntries.length = 257 := by
  rw [manyEntries, List.length_map, List.length_range]

theorem many_entries_distinct : manyEntries.Nodup := by
  apply List.Nodup.map_on _ List.nodup_range
  intro first firstMember second secondMember same
  have firstSmall := List.mem_range.mp firstMember
  have secondSmall := List.mem_range.mp secondMember
  have index : UInt64.ofNat first = UInt64.ofNat second := congrArg HashSetEntry.index same
  have word := congrArg UInt64.toNat index
  have size : UInt64.size = 2 ^ 64 := rfl
  rw [UInt64.toNat_ofNat_of_lt' (by omega), UInt64.toNat_ofNat_of_lt' (by omega)] at word
  exact word

/-- 257 insertions are accepted locally, and the state never answers the last, on a thread
that has all its entries left. -/
theorem many_inserts_never_return : ¬ ∀ cryptoShorthash base ops applicator calls,
    applyAll ops (ProxyApplicator.onBase base) = .ok (true, applicator) →
    calls.map Prod.snd = applicator.getDeltas →
    ∃ granted after, pushDeltas cryptoShorthash 0 calls (RevertableObject.onBase base) =
      .ok (true, granted, after) := by
  intro claimed
  have counted := many_entries_length
  obtain ⟨last, accepted⟩ := inserts_accepted_locally 257 manyEntries [] []
    (List.Perm.refl _) many_entries_distinct (by
      rw [counted]
      exact Nat.le_refl _)
  have deltas := after_inserts_deltas 257 last manyEntries
  let call := fun delta : StorageDelta => (CallIds.first, delta)
  have listed : ((hashSetDeltas none manyEntries none).map call).map Prod.snd =
      hashSetDeltas none manyEntries none := by
    rw [List.map_map]
    exact List.map_id _
  have pushed := claimed (fun _ => 0) (some (emptySet 257)) _ _ _ accepted
    (listed.trans deltas.symm)
  have room := ((push_alone_iff _).mp pushed).1
  rw [listed] at room
  have admits : Admits (some (emptySet 257)) .hashSet := by
    intro required same
    cases same
    rfl
  have fits := (room_hash_set_iff admits none manyEntries none).mp room
  have crowded := fits.holders
  rw [counted] at crowded
  exact absurd crowded (by decide)

end Acceptance

end Scs
