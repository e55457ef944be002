import Scs.StorageProxy.LocalView

/-!
# The local view always answers

On the view of a committed object every operation that contracts can make is
accepted or refused. None of the checks that would throw can fail.
-/

namespace Scs

set_option autoImplicit false

open HashSetEntry Ledger Lockstep ProxyApplicator Words

section Answers

variable {base : Option StorageObject} {applicator : ProxyApplicator} {d : StorageDelta}
  {type : ObjectType} {object : StorageObject}

def Answers (result : Except Fault (Bool × ProxyApplicator)) : Prop :=
  ∃ answer next, result = .ok (answer, next)

theorem default_body_returns (implemented : type ≠ .unconstrainedInt64) :
    ∃ body, defaultBody type = .ok body ∧ body.type = type := by
  cases type with
  | unconstrainedInt64 => exact absurd rfl implemented
  | _ => exact ⟨_, rfl, rfl⟩

theorem make_current_returns (implemented : type ≠ .unconstrainedInt64)
    (typed : ∀ object, applicator.current = some object → object.body.type = type) :
    ∃ object, applicator.makeCurrent type = .ok object ∧ object.body.type = type := by
  unfold makeCurrent
  cases current : applicator.current with
  | none =>
      obtain ⟨body, returned, same⟩ := default_body_returns implemented
      refine ⟨{ body := body, escrowedFee := 0 }, ?_, same⟩
      simp [bind, Except.bind, returned, same]
  | some object =>
      have same := typed object current
      refine ⟨object, ?_, same⟩
      simp [bind, Except.bind, same]

theorem delta_apply_type_guard_spec {value : StorageDeltaClass} (classed : d.class? = some value) :
    ∃ allowed, applicator.deltaApplyTypeGuard d = .ok allowed ∧
      (allowed = true → ∀ object, applicator.current = some object →
        object.body.type = value.type) := by
  unfold deltaApplyTypeGuard
  cases current : applicator.current with
  | none => exact ⟨true, rfl, fun _ _ impossible => by cases impossible⟩
  | some object =>
      cases d <;> cases classed <;>
        refine ⟨_, rfl, fun allowed stored same => ?_⟩ <;>
        cases same <;> exact of_decide_eq_true allowed

theorem apply_write_answers (data : RawMemoryStorage)
    (typed : ∀ object, applicator.current = some object → object.body.type = .rawMemory) :
    Answers (applyWrite data applicator) := by
  obtain ⟨object, made, _⟩ := make_current_returns (by decide) typed
  exact ⟨_, _, bind_ok_iff.mpr ⟨object, made, rfl⟩⟩

/-- The merge never meets the case that its caller has to exclude. -/
theorem make_nnint64_delta_returns (value oldDelta newDelta : Int64) :
    ∃ answer, makeNnint64Delta value oldDelta newDelta = .ok answer := by
  have never : addOverflowInt64 value.toInt (newDelta + oldDelta).toInt = true →
      ¬ newDelta + oldDelta < 0 → ¬ value < 0 := by
    intro far sumNegative valueNegative
    have leaves := add_overflow_int64_iff.mp far
    have below := int64_neg_iff.mp valueNegative
    have above := int64_neg_iff.not.mp sumNegative
    have highest := (newDelta + oldDelta).toInt_lt
    have lowest := value.le_toInt
    omega
  unfold makeNnint64Delta
  by_cases negative : newDelta < 0
  · simp only [if_pos negative]
    by_cases far : addOverflowInt64 value.toInt (newDelta + oldDelta).toInt = true
    · by_cases sumNegative : newDelta + oldDelta < 0
      · simp only [if_pos far, if_pos sumNegative]
        split_ifs <;> exact ⟨_, rfl⟩
      · simp only [if_pos far, if_neg sumNegative, if_neg (never far sumNegative)]
        split_ifs <;> exact ⟨_, rfl⟩
    · simp only [if_neg far]
      split_ifs <;> exact ⟨_, rfl⟩
  · simp only [if_neg negative]
    exact ⟨_, rfl⟩

theorem answers_merged {value oldDelta newDelta : Int64}
    {next : Option SetAdd → Except Fault (Bool × ProxyApplicator)}
    (later : ∀ answer, makeNnint64Delta value oldDelta newDelta = .ok answer →
      Answers (next answer)) : Answers (makeNnint64Delta value oldDelta newDelta >>= next) := by
  obtain ⟨answer, merged⟩ := make_nnint64_delta_returns value oldDelta newDelta
  obtain ⟨accepted, after, returned⟩ := later answer merged
  exact ⟨accepted, after, bind_ok_iff.mpr ⟨answer, merged, returned⟩⟩

theorem current_nnint64_returns {setAdd : SetAdd}
    (covered : setAdd.delta.toInt < 0 → 0 ≤ setAdd.setValue.toInt + setAdd.delta.toInt) :
    ∃ value, currentNnint64 setAdd = .ok value := by
  have zero : (0 : Int64).toInt = 0 := rfl
  unfold currentNnint64
  split_ifs with overflows positive
  · exact ⟨_, rfl⟩
  · have leaves := add_overflow_int64_iff.mp overflows
    have shrinks := Int64.lt_iff_toInt_lt.not.mp positive
    have lowest := setAdd.setValue.le_toInt
    have highest := setAdd.setValue.toInt_lt
    omega
  · exact ⟨_, rfl⟩

theorem apply_set_add_answers (view : View base applicator) (setAdd : SetAdd)
    (typed : ∀ object, applicator.current = some object →
      object.body.type = .nonnegativeInt64) : Answers (applySetAdd setAdd applicator) := by
  unfold applySetAdd
  simp only
  split_ifs with disagrees
  · exact ⟨_, _, rfl⟩
  apply answers_merged
  intro answer merged
  cases answer with
  | none => exact ⟨_, _, rfl⟩
  | some total =>
      obtain ⟨object, made, _⟩ := make_current_returns (by decide) typed
      have before : ∀ old, applicator.nnint64Delta = some old → old.delta.toInt < 0 →
          0 ≤ old.setValue.toInt + old.delta.toInt := by
        intro old held
        cases view with
        | nonnegativeInt64 admits setAdd value covered valued =>
            cases held
            exact covered
        | _ => cases held
      have covered : total.delta.toInt < 0 → 0 ≤ total.setValue.toInt + total.delta.toInt := by
        cases held : applicator.nnint64Delta with
        | none =>
            rw [held] at merged
            have spec := make_nnint64_delta_spec (fun impossible => absurd impossible (by decide))
              merged
            exact spec.1 ▸ spec.2
        | some old =>
            rw [held] at merged disagrees
            have same : old.setValue = setAdd.setValue := by simpa using disagrees
            have spec := make_nnint64_delta_spec (same ▸ before old held) merged
            exact spec.1 ▸ spec.2
      obtain ⟨value, valued⟩ := current_nnint64_returns covered
      exact ⟨_, _, bind_ok_iff.mpr ⟨object, made, bind_ok_iff.mpr ⟨value, valued, rfl⟩⟩⟩

theorem hash_set_body (typed : object.body.type = .hashSet) :
    ∃ set, object.body = .hashSet set := by
  obtain ⟨body, fee⟩ := object
  cases body with
  | hashSet set => exact ⟨set, rfl⟩
  | _ => cases typed

theorem asset_body (typed : object.body.type = .knownSupplyAsset) :
    ∃ asset, object.body = .asset asset := by
  obtain ⟨body, fee⟩ := object
  cases body with
  | asset asset => exact ⟨asset, rfl⟩
  | _ => cases typed

theorem apply_insert_answers (hash : HashSetEntry)
    (typed : ∀ object, applicator.current = some object → object.body.type = .hashSet) :
    Answers (applyInsert hash applicator) := by
  obtain ⟨object, made, kind⟩ := make_current_returns (by decide) typed
  obtain ⟨set, body⟩ := hash_set_body kind
  have read : readHashSet object = .ok set := by
    rw [readHashSet, body]
  unfold applyInsert
  simp only [bind, Except.bind, made, read]
  split_ifs <;> exact ⟨_, _, rfl⟩

theorem apply_increase_limit_answers (limitIncrease : UInt32)
    (typed : ∀ object, applicator.current = some object → object.body.type = .hashSet) :
    Answers (applyIncreaseLimit limitIncrease applicator) := by
  obtain ⟨object, made, _⟩ := make_current_returns (by decide) typed
  exact ⟨_, _, bind_ok_iff.mpr ⟨object, made, rfl⟩⟩

/-- Local entries are sorted and few, so that clearing them ends. -/
theorem apply_clear_answers (tidy : Tidy base) (view : View base applicator) (threshold : UInt64)
    (typed : ∀ object, applicator.current = some object → object.body.type = .hashSet) :
    Answers (applyClear threshold applicator) := by
  obtain ⟨object, made, _⟩ := make_current_returns (by decide) typed
  obtain ⟨raised, increase, new, earlier, current, hashes, rfl, rfl, admits, contents⟩ :=
    open_hash_set view made
  obtain ⟨rfl, within⟩ := contents tidy
  have cleared (highest : UInt64) : clearHashset
      { hashes := localHashes base new earlier, maxSize := limitWord base } highest = .ok _ :=
    clear_hashset_filter highest (local_hashes_normalized base new earlier)
      (below_search_bound within)
  exact ⟨_, _, bind_ok_iff.mpr ⟨_, made, bind_ok_iff.mpr ⟨_, rfl, bind_ok_iff.mpr
    ⟨_, cleared _, rfl⟩⟩⟩⟩

theorem apply_asset_add_answers (delta : Int64)
    (typed : ∀ object, applicator.current = some object → object.body.type = .knownSupplyAsset) :
    Answers (applyAssetAdd delta applicator) := by
  obtain ⟨object, made, kind⟩ := make_current_returns (by decide) typed
  obtain ⟨asset, body⟩ := asset_body kind
  have read : readAsset object = .ok asset := by
    rw [readAsset, body]
  unfold applyAssetAdd
  simp only [bind, Except.bind, made, read]
  split_ifs <;> exact ⟨_, _, rfl⟩

theorem apply_typed_answers (tidy : Tidy base) (view : View base applicator)
    {value : StorageDeltaClass} (classed : d.class? = some value)
    (typed : ∀ object, applicator.current = some object → object.body.type = value.type) :
    Answers (applyTyped d applicator) := by
  cases d with
  | rawMemoryWrite data =>
      cases classed
      exact apply_write_answers data typed
  | nonnegativeInt64SetAdd setAdd =>
      cases classed
      exact apply_set_add_answers view setAdd typed
  | hashSetInsert hash =>
      cases classed
      exact apply_insert_answers hash typed
  | hashSetIncreaseLimit limitIncrease =>
      cases classed
      exact apply_increase_limit_answers limitIncrease typed
  | hashSetClear threshold =>
      cases classed
      exact apply_clear_answers tidy view threshold typed
  | assetObjectAdd assetDelta =>
      cases classed
      exact apply_asset_add_answers assetDelta typed
  | deleteLast => cases classed
  | unconstrainedInt64SetAdd setAdd => cases classed
  | unconstrainedInt64SetMax setMax => cases classed
  | unconstrainedInt64SetXor setXor => cases classed

/-- Every operation that contracts can make is accepted or refused. -/
theorem try_apply_answers (tidy : Tidy base) (seen : Seen base applicator)
    (implemented : d.implemented = true) : Answers (applicator.tryApply d) := by
  unfold tryApply
  split_ifs with last gone
  · exact ⟨_, _, rfl⟩
  · exact ⟨_, _, rfl⟩
  · cases seen with
    | deleted view => exact absurd rfl gone
    | view view =>
        have classed : ∃ value, d.class? = some value := by
          cases d with
          | deleteLast => exact absurd rfl last
          | unconstrainedInt64SetAdd setAdd => cases implemented
          | unconstrainedInt64SetMax setMax => cases implemented
          | unconstrainedInt64SetXor setXor => cases implemented
          | _ => exact ⟨_, rfl⟩
        obtain ⟨value, classed⟩ := classed
        obtain ⟨allowed, guarded, typed⟩ := delta_apply_type_guard_spec classed
        cases allowed with
        | false => exact ⟨_, _, bind_ok_iff.mpr ⟨false, guarded, rfl⟩⟩
        | true =>
            obtain ⟨answer, next, applied⟩ :=
              apply_typed_answers tidy view classed (typed rfl)
            exact ⟨answer, next, bind_ok_iff.mpr ⟨true, guarded, applied⟩⟩

end Answers

end Scs
