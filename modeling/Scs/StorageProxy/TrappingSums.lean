import Scs.StorageProxy.CommittedBase
import Scs.StorageProxy.LocalTotal
import Scs.StorageProxy.RefusedOperations

/-!
# The local view with trapping sums

`try_apply` once more, with each signed 64-bit addition of the source failing
where its result does not fit. Unsigned additions wrap as before.
-/

namespace Scs

set_option autoImplicit false

open HashSetEntry Ledger Lockstep ProxyApplicator Words

inductive Trap where
  | thrown (fault : Fault)
  | signedOverflow
  deriving DecidableEq, Repr

def addInt64 (left right : Int64) : Except Trap Int64 :=
  if addOverflowInt64 left.toInt right.toInt then .error .signedOverflow else .ok (left + right)

def makeNnint64DeltaTrapping (base oldDelta newDelta : Int64) : Except Trap (Option SetAdd) :=
  if newDelta < 0 then
    if addOverflowInt64 newDelta.toInt oldDelta.toInt then .ok none
    else do
      let sum ← addInt64 newDelta oldDelta
      if addOverflowInt64 base.toInt sum.toInt then
        if sum < 0 then .ok none
        else if base < 0 then
          if oldDelta < 0 then
            .error (.thrown (.runtimeError "invalid input to make_nnint64_delta"))
          else .ok none
        else .ok (some { setValue := base, delta := sum })
      else do
        let total ← addInt64 base sum
        if total < 0 then .ok none
        else .ok (some { setValue := base, delta := sum })
  else do
    let sum ←
      if addOverflowInt64 oldDelta.toInt newDelta.toInt then .ok Int64.maxValue
      else addInt64 newDelta oldDelta
    .ok (some { setValue := base, delta := sum })

def currentNnint64Trapping (setAdd : SetAdd) : Except Trap Int64 :=
  if addOverflowInt64 setAdd.setValue.toInt setAdd.delta.toInt then
    if setAdd.delta > 0 then .ok Int64.maxValue
    else .error (.thrown (.runtimeError "should not have negative overflow!"))
  else addInt64 setAdd.setValue setAdd.delta

namespace ProxyApplicator

def applySetAddTrapping (setAdd : SetAdd) (applicator : ProxyApplicator) :
    Except Trap (Bool × ProxyApplicator) := do
  let disagrees : Bool := match applicator.nnint64Delta with
    | none => false
    | some old => old.setValue ≠ setAdd.setValue
  let oldDelta := match applicator.nnint64Delta with
    | none => 0
    | some old => old.delta
  if disagrees then .ok (false, applicator)
  else
    match ← makeNnint64DeltaTrapping setAdd.setValue oldDelta setAdd.delta with
    | none => .ok (false, applicator)
    | some merged => do
        let object ← (applicator.makeCurrent .nonnegativeInt64).mapError Trap.thrown
        let value ← currentNnint64Trapping merged
        .ok (true,
          { applicator with
            nnint64Delta := some merged
            current := some { object with body := .nonnegativeInt64 value } })

/-- The amount of an asset is unsigned, and so is the sum stored in it. -/
def applyAssetAddTrapping (d : Int64) (applicator : ProxyApplicator) :
    Except Trap (Bool × ProxyApplicator) := do
  let object ← (applicator.makeCurrent .knownSupplyAsset).mapError Trap.thrown
  let asset ← (readAsset object).mapError Trap.thrown
  let made := { applicator with current := some object }
  let overflows : Bool := match applicator.delta with
    | some delta => addOverflowInt64 delta.toInt d.toInt
    | none => false
  if overflows then .ok (false, made)
  else if addOverflowUInt64 asset.amount.toNat d.toInt then .ok (false, made)
  else do
    let sum ← match applicator.delta with
      | some delta => addInt64 delta d
      | none => .ok d
    .ok (true,
      { made with
        delta := some sum
        current := some
          { object with body := .asset { amount := asset.amount + d.toUInt64 } } })

def applyTypedTrapping (d : StorageDelta) (applicator : ProxyApplicator) :
    Except Trap (Bool × ProxyApplicator) :=
  match d with
  | .nonnegativeInt64SetAdd setAdd => applySetAddTrapping setAdd applicator
  | .assetObjectAdd assetDelta => applyAssetAddTrapping assetDelta applicator
  | other => (applyTyped other applicator).mapError Trap.thrown

def tryApplyTrapping (d : StorageDelta) (applicator : ProxyApplicator) :
    Except Trap (Bool × ProxyApplicator) :=
  if d = .deleteLast then .ok (true, { applicator with isDeleted := true, current := none })
  else if applicator.isDeleted then .ok (false, applicator)
  else do
    let allowed ← (applicator.deltaApplyTypeGuard d).mapError Trap.thrown
    if allowed then applyTypedTrapping d applicator else .ok (false, applicator)

def tryEachTrapping : List StorageDelta → ProxyApplicator →
    Except Trap (List Bool × ProxyApplicator) :=
  applyEach tryApplyTrapping

end ProxyApplicator

/-! ## No sum traps -/

section Sums

variable {applicator : ProxyApplicator}

theorem add_int64_fits {left right : Int64}
    (fits : ¬ addOverflowInt64 left.toInt right.toInt = true) :
    addInt64 left right = .ok (left + right) := by
  unfold addInt64
  rw [if_neg fits]

theorem add_overflow_int64_comm (left right : Int) :
    addOverflowInt64 left right = addOverflowInt64 right left := by
  unfold addOverflowInt64
  rw [Int.add_comm]

theorem map_error_bind {First Second : Type} (computed : Except Fault First)
    (rest : First → Except Fault Second) :
    (computed >>= rest).mapError Trap.thrown =
      computed.mapError Trap.thrown >>= fun value => (rest value).mapError Trap.thrown := by
  cases computed <;> rfl

theorem make_nnint64_delta_trapping (base oldDelta newDelta : Int64) :
    makeNnint64DeltaTrapping base oldDelta newDelta =
      (makeNnint64Delta base oldDelta newDelta).mapError Trap.thrown := by
  unfold makeNnint64DeltaTrapping makeNnint64Delta
  by_cases negative : newDelta < 0
  · rw [if_pos negative, if_pos negative]
    by_cases merges : addOverflowInt64 newDelta.toInt oldDelta.toInt = true
    · rw [if_pos merges, if_pos merges]
      rfl
    · rw [if_neg merges, if_neg merges, add_int64_fits merges]
      simp only [bind, Except.bind]
      by_cases far : addOverflowInt64 base.toInt (newDelta + oldDelta).toInt = true
      · rw [if_pos far, if_pos far]
        split_ifs <;> rfl
      · rw [if_neg far, if_neg far, add_int64_fits far]
        simp only
        split_ifs <;> rfl
  · rw [if_neg negative, if_neg negative]
    by_cases merges : addOverflowInt64 oldDelta.toInt newDelta.toInt = true
    · simp only [if_pos merges]
      rfl
    · simp only [if_neg merges]
      rw [add_overflow_int64_comm] at merges
      rw [add_int64_fits merges]
      rfl

theorem current_nnint64_trapping (setAdd : SetAdd) :
    currentNnint64Trapping setAdd = (currentNnint64 setAdd).mapError Trap.thrown := by
  unfold currentNnint64Trapping currentNnint64
  by_cases overflows : addOverflowInt64 setAdd.setValue.toInt setAdd.delta.toInt = true
  · rw [if_pos overflows, if_pos overflows]
    split_ifs <;> rfl
  · rw [if_neg overflows, if_neg overflows, add_int64_fits overflows]
    rfl

theorem apply_set_add_trapping (setAdd : SetAdd) :
    applySetAddTrapping setAdd applicator =
      (applySetAdd setAdd applicator).mapError Trap.thrown := by
  unfold applySetAddTrapping applySetAdd
  simp only [make_nnint64_delta_trapping, current_nnint64_trapping]
  rw [apply_ite (Except.mapError Trap.thrown), map_error_bind]
  congr 2
  funext merged
  cases merged with
  | none => rfl
  | some merged =>
      simp only [map_error_bind]
      rfl

theorem apply_asset_add_trapping (d : Int64) :
    applyAssetAddTrapping d applicator =
      (applyAssetAdd d applicator).mapError Trap.thrown := by
  unfold applyAssetAddTrapping applyAssetAdd
  simp only [map_error_bind]
  congr 1
  funext object
  congr 1
  funext asset
  cases held : applicator.delta with
  | none => split_ifs <;> rfl
  | some delta =>
      simp only
      by_cases overflows : addOverflowInt64 delta.toInt d.toInt = true
      · rw [if_pos overflows, if_pos overflows]
        rfl
      · rw [if_neg overflows, if_neg overflows, add_int64_fits overflows]
        split_ifs <;> rfl

theorem try_apply_trapping (d : StorageDelta) :
    tryApplyTrapping d applicator = (tryApply d applicator).mapError Trap.thrown := by
  unfold tryApplyTrapping tryApply
  split_ifs
  · rfl
  · rfl
  · rw [map_error_bind]
    congr 1
    funext allowed
    split_ifs
    · cases d with
      | nonnegativeInt64SetAdd setAdd => exact apply_set_add_trapping setAdd
      | assetObjectAdd amount => exact apply_asset_add_trapping amount
      | _ => rfl
    · rfl

theorem try_each_trapping (ops : List StorageDelta) :
    applicator.tryEachTrapping ops = (applicator.tryEach ops).mapError Trap.thrown := by
  induction ops generalizing applicator with
  | nil => rfl
  | cons d rest induction =>
      have step : tryApplyTrapping d applicator = (tryApply d applicator).mapError Trap.thrown :=
        try_apply_trapping d
      simp only [tryEachTrapping, tryEach, applyEach, step, map_error_bind]
      congr 1
      funext answer
      have later := @induction answer.2
      simp only [tryEachTrapping, tryEach] at later
      rw [later]
      rfl

end Sums

/-! ## No call throws -/

section Calls

variable {base : Option StorageObject} {applicator : ProxyApplicator}

theorem blank_asset_tidy : Tidy (some blankAsset) where
  sorted := List.Pairwise.nil
  short := Nat.zero_le _
  bounded := by decide

theorem met_answers (tidy : Tidy base) (met : Met base applicator) {d : StorageDelta}
    (implemented : d.implemented = true) : Answers (applicator.tryApply d) := by
  cases met with
  | seen seen => exact try_apply_answers tidy seen implemented
  | opened _ seen => exact try_apply_answers blank_asset_tidy seen implemented

theorem try_each_returns (tidy : Tidy base) {ops : List StorageDelta}
    (implemented : ∀ d ∈ ops, d.implemented = true) :
    ∀ {applicator : ProxyApplicator}, Met base applicator →
      ∃ answers last, applicator.tryEach ops = .ok (answers, last) := by
  induction ops with
  | nil =>
      intro applicator _
      exact ⟨[], applicator, rfl⟩
  | cons d rest induction =>
      intro applicator met
      obtain ⟨answer, next, returned⟩ :=
        met_answers tidy met (implemented d (List.mem_cons_self ..))
      obtain ⟨answers, last, later⟩ :=
        induction (fun other member => implemented other (List.mem_cons_of_mem _ member))
          (met_step met returned)
      exact ⟨answer :: answers, last,
        bind_ok_iff.mpr ⟨_, returned, bind_ok_iff.mpr ⟨_, later, rfl⟩⟩⟩

end Calls

/-- On a committed object no sequence of calls throws or lets a signed sum
overflow, whichever of them are refused. -/
theorem calls_never_trap (cryptoShorthash : CryptoShorthash) (base : Option StorageObject)
    (reachable : ReachableBase cryptoShorthash base) (ops : List StorageDelta)
    (implemented : ∀ d ∈ ops, d.implemented = true) :
    ∃ answers applicator,
      (ProxyApplicator.onBase base).tryEachTrapping ops = .ok (answers, applicator) ∧
      (ProxyApplicator.onBase base).tryEach ops = .ok (answers, applicator) := by
  obtain ⟨object, reached, rfl⟩ := reachable
  obtain ⟨answers, last, returned⟩ :=
    try_each_returns (reachable_kempt reached).toTidy implemented (.seen (.view .untouched))
  refine ⟨answers, last, ?_, returned⟩
  rw [try_each_trapping, returned]
  rfl

/-- Sums at both ends of the range, and a refused withdrawal, on an absent object. -/
theorem calls_never_trap_absent :
    ∃ answers applicator,
      (ProxyApplicator.onBase none).tryEachTrapping
        [.assetObjectAdd (-1), .assetObjectAdd Int64.maxValue, .assetObjectAdd Int64.maxValue] =
          .ok (answers, applicator) ∧
      (ProxyApplicator.onBase none).tryEach
        [.assetObjectAdd (-1), .assetObjectAdd Int64.maxValue, .assetObjectAdd Int64.maxValue] =
          .ok (answers, applicator) := by
  exact calls_never_trap (fun _ => 0) none ⟨.fresh, .fresh, rfl⟩ _ (by decide)

end Scs
