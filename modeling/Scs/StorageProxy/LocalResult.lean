import Scs.StorageProxy.CommittedBase
import Scs.StorageProxy.LocalAcceptance

/-!
# What a transaction saw and what is committed

The deltas of a view, pushed alone and committed, settle to the value that the
view reported; only the limit of a hash set may have grown.
-/

namespace Scs

set_option autoImplicit false

open HashSetEntry Ledger Lockstep ProxyApplicator Words

inductive SameUpToLimit : Option StorageObject → Option StorageObject → Prop
  | same (value : Option StorageObject) : SameUpToLimit value value
  | raised (hashes : List HashSetEntry) {limit larger : UInt32} (fee : UInt64)
      (grown : limit ≤ larger) :
      SameUpToLimit
        (some { body := .hashSet { hashes := hashes, maxSize := limit }, escrowedFee := fee })
        (some { body := .hashSet { hashes := hashes, maxSize := larger }, escrowedFee := fee })

/-! ## Settling the merged deltas -/

section Settle

variable {base : Option StorageObject} {committed : Multiset StorageDelta}

theorem settle_int64_shown {value shown : Int64}
    (small : total StorageDelta.deposit committed < 2 ^ 64)
    (valued : shown.toInt = min (2 ^ 63 - 1)
      (value.toInt - total StorageDelta.withdrawal committed +
        total StorageDelta.deposit committed)) :
    settleInt64 value committed = shown := by
  have largest : Int64.maxValue.toInt = 2 ^ 63 - 1 := by decide
  have kept : min (total StorageDelta.deposit committed % 2 ^ 128) (2 ^ 64 - 1) =
      total StorageDelta.deposit committed := by
    rw [Nat.mod_eq_of_lt (small.trans (by decide))]
    omega
  unfold settleInt64
  simp only
  rw [kept]
  apply Int64.toInt_inj.mp
  split_ifs with saturated
  · omega
  · have lowest := shown.le_toInt
    rw [Int64.toInt_ofInt_of_le (by omega) (by omega)]
    omega

theorem settle_asset_shown {amount start : UInt64}
    (balance : amount.toNat = start.toNat + total StorageDelta.assetIn committed -
      total StorageDelta.assetOut committed) :
    settleAsset start.toNat committed = { amount := amount } := by
  unfold settleAsset
  rw [← balance, UInt64.ofNat_toNat]

section HashSet

variable (raised : Option UInt16) (new : List HashSetEntry) (threshold : Option UInt64)

theorem mem_hash_set_deltas (delta : StorageDelta) :
    delta ∈ (hashSetDeltas raised new threshold : Multiset StorageDelta) ↔
      (∃ limit, raised = some limit ∧ makeHashSetIncreaseLimit limit = delta) ∨
        (∃ hash ∈ new, makeHashSetInsert hash = delta) ∨
        ∃ cleared, threshold = some cleared ∧ makeHashSetClear cleared = delta := by
  simp only [Multiset.mem_coe, hashSetDeltas, List.mem_append, Option.mem_toList, List.mem_map,
    Option.map_eq_some_iff, or_assoc]

theorem hash_set_deltas_raise :
    total StorageDelta.limitRaise ↑(hashSetDeltas raised new threshold) < 2 ^ 16 := by
  have unraised : total StorageDelta.limitRaise
      (↑(new.map makeHashSetInsert) + ↑(threshold.map makeHashSetClear).toList) = 0 := by
    apply total_eq_zero
    intro delta member
    rw [Multiset.mem_add, Multiset.mem_coe, Multiset.mem_coe, List.mem_map, Option.mem_toList,
      Option.map_eq_some_iff] at member
    rcases member with ⟨hash, _, rfl⟩ | ⟨cleared, _, rfl⟩ <;> rfl
  rw [hashSetDeltas, List.append_assoc, ← Multiset.coe_add, ← Multiset.coe_add, total_add,
    unraised]
  cases raised with
  | none => exact Nat.two_pow_pos 16
  | some limit => exact limit.toNat_lt

theorem hash_set_deltas_clear :
    0 < Multiset.countP (fun delta : StorageDelta => delta.isClear = true)
      ↑(hashSetDeltas raised new threshold) ↔ threshold.isSome = true := by
  rw [Multiset.countP_pos, Option.isSome_iff_exists]
  constructor
  · intro ⟨delta, member, clear⟩
    rw [mem_hash_set_deltas] at member
    rcases member with ⟨limit, _, rfl⟩ | ⟨hash, _, rfl⟩ | ⟨cleared, same, _⟩
    · cases clear
    · cases clear
    · exact ⟨cleared, same⟩
  · intro ⟨cleared, same⟩
    refine ⟨makeHashSetClear cleared, ?_, rfl⟩
    rw [mem_hash_set_deltas]
    exact Or.inr (Or.inr ⟨cleared, same, rfl⟩)

theorem hash_set_deltas_threshold (cleared : UInt64) :
    ((hashSetDeltas raised new (some cleared) : Multiset StorageDelta).map
      StorageDelta.clearThreshold).sup = cleared.toNat := by
  apply le_antisymm
  · apply Multiset.sup_le.mpr
    intro bound mapped
    obtain ⟨delta, member, rfl⟩ := Multiset.mem_map.mp mapped
    rw [mem_hash_set_deltas] at member
    rcases member with ⟨limit, _, rfl⟩ | ⟨hash, _, rfl⟩ | ⟨other, same, rfl⟩
    · exact Nat.zero_le _
    · exact Nat.zero_le _
    · cases same
      exact le_refl _
  · apply Multiset.le_sup
    apply Multiset.mem_map_of_mem StorageDelta.clearThreshold (a := makeHashSetClear cleared)
    rw [mem_hash_set_deltas]
    exact Or.inr (Or.inr ⟨cleared, rfl, rfl⟩)

theorem settle_hash_set_shown (tidy : Tidy base)
    (short : (sortedHashes (↑(Opening.onBase base).hashes +
      inserts ↑(hashSetDeltas raised new threshold))).length ≤ maxHashSetSize) :
    ∃ larger, limitWord base ≤ larger ∧
      settleHashSet { hashes := (Opening.onBase base).hashes, maxSize := limitWord base }
        ↑(hashSetDeltas raised new threshold) =
          .ok { hashes := localHashes base new threshold, maxSize := larger } := by
  have inserted := hash_set_deltas_inserts raised new threshold
  have cleared := hash_set_deltas_clear raised new threshold
  rw [settle_hash_set_eq _ short, inserted]
  refine ⟨_, ?_, congrArg Except.ok (congrArg (HashSet.mk · _) ?_)⟩
  · have raise := hash_set_deltas_raise raised new threshold
    have bounded := tidy.bounded
    unfold maxHashSetSize at *
    rw [UInt32.le_iff_toNat_le, UInt32.toNat_ofNat']
    simp only
    omega
  · cases threshold with
    | none =>
        rw [if_neg (mt cleared.mp Bool.false_ne_true), localHashes]
        exact (List.filter_eq_self.mpr fun _ _ => rfl).symm
    | some limit =>
        rw [if_pos (cleared.mpr rfl), hash_set_deltas_threshold, UInt64.ofNat_toNat]
        rfl

end HashSet

end Settle

/-! ## What each shape of a view settles to -/

section Shapes

variable {base : Option StorageObject} {applicator : ProxyApplicator}
  {value? : Option StorageDeltaClass}

/-- The committed object, or the object of the agreed value, settles to what the
view shows. -/
structure Settles (base : Option StorageObject) (value? : Option StorageDeltaClass)
    (committed : Multiset StorageDelta) (shown start : Option StorageObject) : Prop where
  agreed : agreedObject base value? = .ok start
  absent : start = none → shown = none
  body : ∀ object, start = some object → ∃ settled,
    settleBody (.onBase base) committed object = .ok settled ∧ SameUpToLimit shown (some settled)

theorem settles_class {value : StorageDeltaClass} {committed : Multiset StorageDelta}
    {shown : Option StorageObject} {object settled : StorageObject}
    (from_class : objectFromDeltaClass value base = .ok object)
    (body : settleBody (.onBase base) committed object = .ok settled)
    (same : SameUpToLimit shown (some settled)) :
    Settles base (some value) committed shown (some object) where
  agreed := bind_ok_iff.mpr ⟨object, from_class, rfl⟩
  absent impossible := by cases impossible
  body other equal := by
    cases equal
    exact ⟨settled, body, same⟩

theorem hash_set_start (admits : Admits base .hashSet) :
    objectFromDeltaClass .hashSet base = .ok
      { body := .hashSet { hashes := (Opening.onBase base).hashes, maxSize := limitWord base }
        escrowedFee := 0 } := by
  rcases base with _ | ⟨body, fee⟩
  · rfl
  · have typed := admits body.type rfl
    cases body <;> cases typed
    rfl

theorem asset_start (admits : Admits base .knownSupplyAsset) :
    objectFromDeltaClass .knownSupplyAsset base = .ok
      { body := .asset { amount := assetAmount base }, escrowedFee := 0 } := by
  rcases base with _ | ⟨body, fee⟩
  · rfl
  · have typed := admits body.type rfl
    cases body <;> cases typed
    rfl

theorem raw_memory_start (admits : Admits base .rawMemory) (data : RawMemoryStorage) :
    objectFromDeltaClass (.rawMemory data) base =
      .ok { body := .rawMemoryStorage data, escrowedFee := 0 } := by
  rcases base with _ | ⟨body, fee⟩
  · rfl
  · have typed := admits body.type rfl
    cases body <;> cases typed
    rfl

theorem nonnegative_int64_start (admits : Admits base .nonnegativeInt64) (value : Int64) :
    objectFromDeltaClass (.nonnegativeInt64 value) base =
      .ok { body := .nonnegativeInt64 value, escrowedFee := 0 } := by
  rcases base with _ | ⟨body, fee⟩
  · rfl
  · have typed := admits body.type rfl
    cases body <;> cases typed
    rfl

/-- Nothing was pushed: the committed object stays. -/
theorem settles_untouched (kempt : Kempt base) : Settles base none 0 base base where
  agreed := rfl
  absent := id
  body object stored := by
    subst stored
    have short := entries_short kempt.toTidy (solvent_zero (.onBase (some object)))
    obtain ⟨body, fee⟩ := object
    cases body with
    | rawMemoryStorage raw => exact ⟨_, rfl, .same _⟩
    | nonnegativeInt64 value =>
        have highest := value.toInt_lt
        have kept : settleInt64 value 0 = value := by
          apply settle_int64_shown (by decide)
          rw [total_zero, total_zero]
          omega
        refine ⟨_, rfl, ?_⟩
        rw [kept]
        exact .same _
    | unconstrainedInt64 value => exact absurd rfl (kempt.implemented _ rfl)
    | asset stored =>
        have kept : settleAsset (Opening.onBase (some
            { body := .asset stored, escrowedFee := fee })).supply.toNat 0 =
              { amount := stored.amount } := by
          apply settle_asset_shown
          rw [total_zero, total_zero]
          rfl
        refine ⟨_, rfl, ?_⟩
        simp only
        rw [kept]
        exact .same _
    | hashSet set =>
        obtain ⟨larger, grown, settled⟩ :=
          settle_hash_set_shown none [] none kempt.toTidy short
        rw [← local_hashes_start kempt.sorted] at settled
        exact ⟨_, bind_ok_iff.mpr ⟨_, settled, rfl⟩, .raised _ fee grown⟩

theorem view_settles (kempt : Kempt base) (view : View base applicator)
    (short : (sortedHashes (↑(Opening.onBase base).hashes +
      inserts ↑(mergedDeltas applicator))).length ≤ maxHashSetSize)
    (agrees : ∀ value, value? = some value ↔
      ∃ delta ∈ mergedDeltas applicator, delta.class? = some value) :
    ∃ start, Settles base value? ↑(mergedDeltas applicator) applicator.current start := by
  cases view with
  | untouched =>
      have unset : value? = none := by
        apply Option.eq_none_iff_forall_ne_some.mpr
        intro value set
        obtain ⟨delta, member, _⟩ := (agrees value).mp set
        cases member
      rw [unset]
      exact ⟨base, settles_untouched kempt⟩
  | rawMemory admits data =>
      have set : value? = some (.rawMemory data) :=
        (agrees _).mpr ⟨makeRawMemoryWrite data, List.mem_singleton_self _, rfl⟩
      rw [set, kempt.fee]
      exact ⟨_, settles_class (raw_memory_start admits data) rfl (.same _)⟩
  | nonnegativeInt64 admits setAdd value covered valued =>
      have set : value? = some (.nonnegativeInt64 setAdd.setValue) :=
        (agrees _).mpr ⟨.nonnegativeInt64SetAdd setAdd, List.mem_singleton_self _, rfl⟩
      have shown : settleInt64 setAdd.setValue {.nonnegativeInt64SetAdd setAdd} = value := by
        have lowest := setAdd.delta.le_toInt
        have highest := setAdd.delta.toInt_lt
        apply settle_int64_shown
        · change setAdd.delta.toInt.toNat + 0 < 2 ^ 64
          omega
        · rw [valued]
          change _ = min (2 ^ 63 - 1) (setAdd.setValue.toInt -
            ((-setAdd.delta.toInt).toNat + 0 : ℕ) + (setAdd.delta.toInt.toNat + 0 : ℕ))
          omega
      rw [set, kempt.fee, ← shown]
      exact ⟨_, settles_class (nonnegative_int64_start admits setAdd.setValue) rfl (.same _)⟩
  | asset admits sum amount total =>
      have set : value? = some .knownSupplyAsset :=
        (agrees _).mpr ⟨makeAssetAdd sum, List.mem_singleton_self _, rfl⟩
      have shown :
          settleAsset (assetAmount base).toNat {makeAssetAdd sum} = { amount := amount } := by
        apply settle_asset_shown
        change _ = _ + (sum.toInt.toNat + 0) - ((-sum.toInt).toNat + 0)
        omega
      rw [set, kempt.fee, ← shown]
      exact ⟨_, settles_class (asset_start admits) rfl (.same _)⟩
  | hashSet admits raised increase new threshold hashes touched contents =>
      obtain ⟨limit, same, merged⟩ := merged_hash_set base raised increase new threshold
        (some
          { body := .hashSet { hashes := hashes, maxSize := limitWord base }
            escrowedFee := carriedFee base })
      obtain ⟨shown, _⟩ := contents kempt.toTidy
      rw [merged] at short agrees ⊢
      have nonempty : hashSetDeltas limit new threshold ≠ [] := by
        intro empty
        have counted : 0 = new.length + limit.isSome.toNat + threshold.isSome.toNat := by
          rw [← hash_set_deltas_count, empty]
          rfl
        rcases touched with rfl | inserted | cleared
        · rw [same, Bool.toNat_true] at counted
          omega
        · have positive := List.length_pos_of_ne_nil inserted
          omega
        · rw [Option.isSome_iff_ne_none.mpr cleared, Bool.toNat_true] at counted
          omega
      obtain ⟨delta, member⟩ := List.exists_mem_of_ne_nil _ nonempty
      have set : value? = some .hashSet :=
        (agrees _).mpr ⟨delta, member, hash_set_deltas_class member⟩
      obtain ⟨larger, grown, settled⟩ :=
        settle_hash_set_shown limit new threshold kempt.toTidy short
      rw [← shown] at settled
      rw [set, kempt.fee]
      exact ⟨_, settles_class (hash_set_start admits) (bind_ok_iff.mpr ⟨_, settled, rfl⟩)
        (.raised hashes 0 grown)⟩

end Shapes

/-! ## The committed result -/

section Result

variable {cryptoShorthash : CryptoShorthash} {base : Option StorageObject}
  {applicator : ProxyApplicator} {object : RevertableObject}

theorem delete_not_merged (view : View base applicator) :
    StorageDelta.deleteLast ∉ mergedDeltas applicator := by
  cases view with
  | untouched => exact List.not_mem_nil
  | rawMemory => simp [mergedDeltas, onBase, makeRawMemoryWrite]
  | nonnegativeInt64 => simp [mergedDeltas, onBase, makeNonnegativeInt64SetAdd]
  | asset => simp [mergedDeltas, onBase, makeAssetAdd]
  | hashSet admits raised increase new threshold =>
      obtain ⟨limit, _, merged⟩ := merged_hash_set base raised increase new threshold _
      rw [merged]
      intro member
      cases hash_set_deltas_class member

theorem settle_view (kempt : Kempt base) (view : View base applicator)
    {value? : Option StorageDeltaClass}
    (short : (sortedHashes (↑(Opening.onBase base).hashes +
      inserts ↑(mergedDeltas applicator))).length ≤ maxHashSetSize)
    (agrees : ∀ value, value? = some value ↔
      ∃ delta ∈ mergedDeltas applicator, delta.class? = some value) :
    ∃ result, settle (.onBase base) value? ↑(mergedDeltas applicator) = .ok result ∧
      SameUpToLimit applicator.get result := by
  have present : applicator.get = applicator.current := if_neg (by simp [view_not_deleted view])
  obtain ⟨start, shown⟩ := view_settles kempt view short agrees
  rw [present]
  cases start with
  | none =>
      rw [shown.absent rfl]
      exact ⟨none, bind_ok_iff.mpr ⟨none, shown.agreed, rfl⟩, .same none⟩
  | some agreed =>
      obtain ⟨settled, body, same⟩ := shown.body agreed rfl
      refine ⟨some settled, bind_ok_iff.mpr ⟨some agreed, shown.agreed, ?_⟩, same⟩
      exact (if_neg (delete_not_merged view)).trans (bind_ok_iff.mpr ⟨settled, body, rfl⟩)

/-- A deletion leaves nothing, whatever was merged before it. -/
theorem settle_deleted (kempt : Kempt base) (view : View base applicator)
    {value? : Option StorageDeltaClass}
    (short : (sortedHashes (↑(Opening.onBase base).hashes +
      inserts ↑(mergedDeltas applicator ++ [StorageDelta.deleteLast]))).length ≤ maxHashSetSize)
    (agrees : ∀ value, value? = some value ↔
      ∃ delta ∈ mergedDeltas applicator ++ [StorageDelta.deleteLast], delta.class? = some value) :
    settle (.onBase base) value? ↑(mergedDeltas applicator ++ [StorageDelta.deleteLast]) =
      .ok none := by
  have fewer : ∀ value, value? = some value ↔
      ∃ delta ∈ mergedDeltas applicator, delta.class? = some value := by
    intro value
    rw [agrees]
    constructor
    · intro ⟨delta, member, classed⟩
      rcases List.mem_append.mp member with merged | last
      · exact ⟨delta, merged, classed⟩
      · rw [List.mem_singleton.mp last] at classed
        cases classed
    · intro ⟨delta, member, classed⟩
      exact ⟨delta, List.mem_append_left _ member, classed⟩
  have inserted : inserts ↑(mergedDeltas applicator ++ [StorageDelta.deleteLast]) =
      inserts ↑(mergedDeltas applicator) := by
    have shuffled : (↑(mergedDeltas applicator ++ [StorageDelta.deleteLast]) :
        Multiset StorageDelta) = .deleteLast ::ₘ ↑(mergedDeltas applicator) :=
      Multiset.coe_eq_coe.mpr (List.perm_append_singleton _ _)
    rw [shuffled, inserts_skip rfl]
  rw [inserted] at short
  obtain ⟨start, shown⟩ := view_settles kempt view short fewer
  cases start with
  | none => exact bind_ok_iff.mpr ⟨none, shown.agreed, rfl⟩
  | some agreed =>
      apply bind_ok_iff.mpr
      refine ⟨some agreed, shown.agreed, if_pos ?_⟩
      exact List.mem_append_right _ (List.mem_singleton_self _)

/-- Once its deltas are committed, `commit_round` leaves what the view showed. -/
theorem seen_committed (kempt : Kempt base) (seen : Seen base applicator)
    (midway : Midway cryptoShorthash base ↑applicator.getDeltas 0 object) :
    ∃ after, object.commitRound = .ok after ∧
      SameUpToLimit applicator.get after.getCommittedObject := by
  obtain ⟨agreement, accounts⟩ := midway.accounts
  have solvent := accounts.solvent
  rw [live_none] at solvent
  have short := entries_short kempt.toTidy solvent
  have settles := commit_round_settles accounts
  have agrees := agreed_value_iff accounts
  have settled : ∃ result, settle (.onBase base) agreement.value? ↑applicator.getDeltas =
      .ok result ∧ SameUpToLimit applicator.get result := by
    cases seen with
    | view view =>
        rw [get_deltas_view view] at short agrees ⊢
        exact settle_view kempt view short agrees
    | @deleted applicator view =>
        rw [get_deltas_deleted] at short agrees ⊢
        exact ⟨none, settle_deleted kempt view short agrees, .same none⟩
  obtain ⟨result, reached, same⟩ := settled
  rw [reached] at settles
  cases ended : object.commitRound with
  | error fault =>
      rw [ended] at settles
      cases settles
  | ok after =>
      rw [ended] at settles
      cases settles
      exact ⟨after, rfl, same⟩

/-- Over a reachable committed object, an accepted view whose deltas are
accepted alone and committed shows what `commit_round` leaves. -/
theorem local_view_committed (cryptoShorthash : CryptoShorthash) (base : Option StorageObject)
    (ops : List StorageDelta) (applicator : ProxyApplicator)
    (calls : List (CallIds × StorageDelta)) (granted : List DeltaRewind)
    (allocated : ℕ) (pushed : RevertableObject) (reachable : ReachableBase cryptoShorthash base)
    (accepted : applyAll ops (ProxyApplicator.onBase base) = .ok (true, applicator))
    (listed : calls.map Prod.snd = applicator.getDeltas)
    (returned : pushDeltas cryptoShorthash allocated calls (RevertableObject.onBase base) =
      .ok (true, granted, pushed)) :
    ∃ object after, commitRewinds granted pushed = .ok object ∧ object.commitRound = .ok after ∧
      SameUpToLimit applicator.get after.getCommittedObject := by
  obtain ⟨chain, reached, rfl⟩ := reachable
  have start : Midway cryptoShorthash chain.getCommittedObject 0 0 (.onBase _) := midway_start
  obtain ⟨deltas, midway, _⟩ := push_deltas_spec calls start returned
  rw [add_zero] at midway
  obtain ⟨object, committed, closed⟩ := commit_rewinds_spec granted midway
  rw [deltas, listed, add_zero] at closed
  have seen := apply_all_seen ops (.view .untouched) accepted
  obtain ⟨after, ended, same⟩ := seen_committed (reachable_kempt reached) seen closed
  exact ⟨object, after, committed, ended, same⟩

def insertAndRaise : List StorageDelta :=
  [.hashSetInsert { hash := 0, index := 2 }, .hashSetIncreaseLimit 4]

theorem insert_and_raise_fits :
    EntriesFit none [{ hash := 0, index := 2 }] true false where
  holders := by decide
  room _ := by decide
  unseen _ _ := List.not_mem_nil
  distinct := List.nodup_singleton _
  slots := Nat.le_trans (by decide) (with_extra_buffer_ge start_limit_bounded)

theorem local_view_committed_insert : ∃ applicator granted pushed object after,
    applyAll insertAndRaise (ProxyApplicator.onBase none) = .ok (true, applicator) ∧
    pushDeltas (fun _ => 0) 0
      [(CallIds.first, .hashSetIncreaseLimit 4),
        (CallIds.first, .hashSetInsert { hash := 0, index := 2 })]
      (RevertableObject.onBase none) = .ok (true, granted, pushed) ∧
    commitRewinds granted pushed = .ok object ∧ object.commitRound = .ok after ∧
    SameUpToLimit applicator.get after.getCommittedObject := by
  have admits : Admits none .hashSet := fun _ impossible => by cases impossible
  have room := (room_hash_set_iff admits (some 4) [{ hash := 0, index := 2 }] none).mpr
    insert_and_raise_fits
  obtain ⟨granted, pushed, returned⟩ : ∃ granted pushed, pushDeltas (fun _ => 0) 0
      [(CallIds.first, .hashSetIncreaseLimit 4),
        (CallIds.first, .hashSetInsert { hash := 0, index := 2 })]
      (RevertableObject.onBase none) = .ok (true, granted, pushed) :=
    (push_alone_iff _).mpr ⟨room, by decide⟩
  obtain ⟨object, after, result⟩ := local_view_committed (fun _ => 0) none insertAndRaise _ _
    granted 0 pushed ⟨.fresh, .fresh, rfl⟩ rfl rfl returned
  exact ⟨_, granted, pushed, object, after, rfl, returned, result⟩

end Result

end Scs
