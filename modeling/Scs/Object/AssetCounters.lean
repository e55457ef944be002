import Scs.Library.Threads
import Scs.Object.AssetOrder

/-!
# The two counters of an asset, one atomic step at a time

`try_add_delta` of an `ASSET_OBJECT_ADD` is a `try_set` and a compare-exchange
loop on one counter; `commit` and `~DeltaRewind` are a fetch-add on one counter
and a call on the base word. The steps of all transactions interleave.
-/

namespace Scs

set_option autoImplicit false

open Runs Threads Words

/-- The object, and the amounts whose commit step was taken. -/
structure AssetRound where
  object : RevertableObject
  committed : Multiset Int64

inductive AssetTask where
  | trying (ids : CallIds) (d : Int64)
  | loading (ids : CallIds) (d : Int64) (rewind : Rewind)
  | exchanging (ids : CallIds) (d : Int64) (rewind : Rewind) (expect : UInt64)
  | undoing (newId : UniqueId) (rewind : Rewind)
  | outstanding (newId : UniqueId) (d : Int64) (rewind : Rewind)
  | finalizing (rewind : Rewind)

namespace RevertableObject

def assetCounter (d : Int64) (object : RevertableObject) : UInt64 :=
  if d < 0 then object.availableAsset else object.availableAssetUpperbound

def withAssetCounter (d : Int64) (value : UInt64) (object : RevertableObject) :
    RevertableObject :=
  if d < 0 then { object with availableAsset := value }
  else { object with availableAssetUpperbound := value }

end RevertableObject

/-- One atomic step. A compare-exchange may fail spuriously, and an outstanding
rewind is committed or destroyed as its transaction decides. -/
inductive AssetMoves (cryptoShorthash : CryptoShorthash) : Moves AssetRound AssetTask
  | granted {round : AssetRound} {ids : CallIds} {d : Int64} {rewind : Rewind}
      {baseObj : RevertableBaseObject}
      (returned : round.object.baseObj.trySet ids.set .knownSupplyAsset =
        .ok (some rewind, baseObj)) :
      AssetMoves cryptoShorthash round (.trying ids d)
        { round with object := { round.object with baseObj := baseObj } }
        {.loading ids d rewind}
  | conflicted {round : AssetRound} {ids : CallIds} {d : Int64}
      {baseObj : RevertableBaseObject}
      (returned : round.object.baseObj.trySet ids.set .knownSupplyAsset = .ok (none, baseObj)) :
      AssetMoves cryptoShorthash round (.trying ids d)
        { round with object := { round.object with baseObj := baseObj } } 0
  | loaded {round : AssetRound} {ids : CallIds} {d : Int64} {rewind : Rewind} :
      AssetMoves cryptoShorthash round (.loading ids d rewind) round
        {.exchanging ids d rewind (round.object.assetCounter d)}
  | missed {round : AssetRound} {ids : CallIds} {d : Int64} {rewind : Rewind} {expect : UInt64}
      (fits : (tryAddUint64 d expect).isSome = true) :
      AssetMoves cryptoShorthash round (.exchanging ids d rewind expect) round
        {.exchanging ids d rewind (round.object.assetCounter d)}
  | exchanged {round : AssetRound} {ids : CallIds} {d : Int64} {rewind : Rewind}
      {desire : UInt64} (fits : tryAddUint64 d (round.object.assetCounter d) = some desire) :
      AssetMoves cryptoShorthash round
        (.exchanging ids d rewind (round.object.assetCounter d))
        { round with object := round.object.withAssetCounter d desire }
        {.outstanding ids.undo d rewind}
  | refused {round : AssetRound} {ids : CallIds} {d : Int64} {rewind : Rewind} {expect : UInt64}
      (overflows : tryAddUint64 d expect = none) :
      AssetMoves cryptoShorthash round (.exchanging ids d rewind expect) round
        {.undoing ids.undo rewind}
  | committed {round : AssetRound} {newId : UniqueId} {d : Int64} {rewind : Rewind}
      {object : RevertableObject}
      (returned : round.object.commitDelta (.assetObjectAdd d) = .ok object) :
      AssetMoves cryptoShorthash round (.outstanding newId d rewind)
        { object := object, committed := d ::ₘ round.committed } {.finalizing rewind}
  | reverted {round : AssetRound} {newId : UniqueId} {d : Int64} {rewind : Rewind}
      {object : RevertableObject}
      (returned : round.object.revertDelta cryptoShorthash (.assetObjectAdd d) = .ok object) :
      AssetMoves cryptoShorthash round (.outstanding newId d rewind)
        { round with object := object } {.undoing newId rewind}
  | finalized {round : AssetRound} {rewind : Rewind} :
      AssetMoves cryptoShorthash round (.finalizing rewind)
        { round with
          object := { round.object with baseObj := rewind.commit round.object.baseObj } } 0
  | undone {round : AssetRound} {newId : UniqueId} {rewind : Rewind}
      {baseObj : RevertableBaseObject}
      (returned : rewind.destroy newId round.object.baseObj = .ok baseObj) :
      AssetMoves cryptoShorthash round (.undoing newId rewind)
        { round with object := { round.object with baseObj := baseObj } } 0

/-! ## The base word -/

def SetsOnly (value : StorageDeltaClass) (base : RevertableBaseObject) : Prop :=
  base.obj = none ∨ base.obj = some value

section Word

variable {value : StorageDeltaClass} {base after : RevertableBaseObject} {newId : UniqueId}

theorem while_true_ok {Result : Type} {body : Option Result} {result : Result}
    (returned : whileTrue body = .ok result) : body = some result := by
  cases body with
  | none => cases returned
  | some value =>
      cases returned
      rfl

theorem try_set_attempt_only {answer : Option Rewind} (only : SetsOnly value base)
    (attempt : base.trySetAttempt newId value = some (answer, after)) : SetsOnly value after := by
  unfold RevertableBaseObject.trySetAttempt at attempt
  cases stored : base.obj with
  | none =>
      simp only [stored] at attempt
      split_ifs at attempt
      cases attempt
      exact Or.inr rfl
  | some current =>
      have kept : after.obj = base.obj := by
        simp only [stored] at attempt
        split_ifs at attempt <;> cases attempt <;> first | rfl | exact stored.symm
      rw [SetsOnly, kept]
      exact only

theorem try_set_only {answer : Option Rewind} (only : SetsOnly value base)
    (returned : base.trySet newId value = .ok (answer, after)) : SetsOnly value after := by
  unfold RevertableBaseObject.trySet at returned
  cases required : base.requiredType with
  | none =>
      rw [required] at returned
      exact try_set_attempt_only only (while_true_ok returned)
  | some type =>
      rw [required] at returned
      simp only at returned
      split_ifs at returned
      · cases returned
        exact only
      · exact try_set_attempt_only only (while_true_ok returned)

theorem commit_only (rewind : Rewind) (only : SetsOnly value base) :
    SetsOnly value (rewind.commit base) := by
  unfold Rewind.commit
  split_ifs
  · exact only
  · exact only

theorem destroy_only {rewind : Rewind} (only : SetsOnly value base)
    (returned : rewind.destroy newId base = .ok after) : SetsOnly value after := by
  unfold Rewind.destroy at returned
  split_ifs at returned
  · have attempt := while_true_ok returned
    unfold RevertableBaseObject.revertAttempt at attempt
    simp only at attempt
    split_ifs at attempt <;> cases attempt
    · exact only
    · exact Or.inl rfl
    · exact only
  · cases returned
    exact only

end Word

/-! ## What the counters hold -/

def paidIn (amounts : Multiset Int64) : ℕ := (amounts.map fun d => d.toInt.toNat).sum

def takenOut (amounts : Multiset Int64) : ℕ := (amounts.map fun d => (-d.toInt).toNat).sum

def amountSum (amounts : Multiset Int64) : ℤ := (amounts.map Int64.toInt).sum

section Sums

@[simp] theorem paid_in_zero : paidIn 0 = 0 := rfl

@[simp] theorem taken_out_zero : takenOut 0 = 0 := rfl

@[simp] theorem paid_in_cons (d : Int64) (amounts : Multiset Int64) :
    paidIn (d ::ₘ amounts) = d.toInt.toNat + paidIn amounts := by
  simp only [paidIn, Multiset.map_cons, Multiset.sum_cons]

@[simp] theorem taken_out_cons (d : Int64) (amounts : Multiset Int64) :
    takenOut (d ::ₘ amounts) = (-d.toInt).toNat + takenOut amounts := by
  simp only [takenOut, Multiset.map_cons, Multiset.sum_cons]

theorem amount_sum_eq (amounts : Multiset Int64) :
    amountSum amounts = paidIn amounts - takenOut amounts := by
  induction amounts using Multiset.induction with
  | empty => rfl
  | cons d amounts induction =>
      rw [paid_in_cons, taken_out_cons, amountSum, Multiset.map_cons, Multiset.sum_cons,
        ← amountSum, induction]
      push_cast
      omega

end Sums

def AssetTask.reserved? : AssetTask → Option Int64
  | .outstanding _ d _ => some d
  | _ => none

def reserved (tasks : Multiset AssetTask) : Multiset Int64 := tasks.filterMap AssetTask.reserved?

theorem reserved_cons_none {task : AssetTask} (idle : task.reserved? = none)
    (tasks : Multiset AssetTask) : reserved (task ::ₘ tasks) = reserved tasks :=
  Multiset.filterMap_cons_none _ _ idle

theorem reserved_cons_outstanding (newId : UniqueId) (d : Int64) (rewind : Rewind)
    (tasks : Multiset AssetTask) :
    reserved (.outstanding newId d rewind ::ₘ tasks) = d ::ₘ reserved tasks :=
  Multiset.filterMap_cons_some _ _ _ rfl

/-- The counters against the committed and the outstanding amounts. A withdrawal lowers the
first counter at once and the second when it commits, a deposit raises the second at once
and the first when it commits. -/
structure CountersKept (amount : UInt64) (committed held : Multiset Int64)
    (object : RevertableObject) : Prop where
  available : (object.availableAsset.toNat : ℤ) =
    amount.toNat + paidIn committed - takenOut committed - takenOut held
  upperbound : (object.availableAssetUpperbound.toNat : ℤ) =
    amount.toNat + paidIn committed + paidIn held - takenOut committed

/-- An asset round: the counters, and the words that only assets touch. -/
structure AssetKept (amount fee : UInt64) (committed held : Multiset Int64)
    (object : RevertableObject) : Prop extends CountersKept amount committed held object where
  base : object.committedBase = some (assetBase amount fee)
  present : object.deleteLastCommitted = false
  word : SetsOnly .knownSupplyAsset object.baseObj

section Kept

variable {amount fee : UInt64} {committed held : Multiset Int64} {object after : RevertableObject}
  {d : Int64}

theorem exchange_kept (kept : AssetKept amount fee committed held object) {desire : UInt64}
    (fits : tryAddUint64 d (object.assetCounter d) = some desire) :
    AssetKept amount fee committed (d ::ₘ held) (object.withAssetCounter d desire) := by
  unfold tryAddUint64 at fits
  split_ifs at fits with overflows
  cases fits
  have stays := add_overflow_uint64_iff.not.mp overflows
  have sum := uint64_add_signed (object.assetCounter d) d (by omega) (by omega)
  have available := kept.available
  have upperbound := kept.upperbound
  unfold RevertableObject.assetCounter at sum
  unfold RevertableObject.withAssetCounter RevertableObject.assetCounter
  split_ifs at sum ⊢ with negative
  · have sign := int64_neg_iff.mp negative
    refine ⟨⟨?_, ?_⟩, kept.base, kept.present, kept.word⟩
    · simp only [taken_out_cons]
      push_cast
      omega
    · simp only [paid_in_cons]
      push_cast
      omega
  · have sign := int64_neg_iff.not.mp negative
    refine ⟨⟨?_, ?_⟩, kept.base, kept.present, kept.word⟩
    · simp only [taken_out_cons]
      push_cast
      omega
    · simp only [paid_in_cons]
      push_cast
      omega

theorem commit_kept (kept : AssetKept amount fee committed (d ::ₘ held) object)
    (returned : object.commitDelta (.assetObjectAdd d) = .ok after) :
    AssetKept amount fee (d ::ₘ committed) held after := by
  have available := kept.available
  have upperbound := kept.upperbound
  have lower := object.availableAsset.toNat_lt
  have upper := object.availableAssetUpperbound.toNat_lt
  rw [taken_out_cons] at available
  rw [paid_in_cons] at upperbound
  push_cast at available upperbound
  simp only [RevertableObject.commitDelta] at returned
  split_ifs at returned with negative <;> cases returned
  · have sign := int64_neg_iff.mp negative
    have sum := uint64_add_signed object.availableAssetUpperbound d (by omega) (by omega)
    refine ⟨⟨?_, ?_⟩, kept.base, kept.present, kept.word⟩
    · rw [paid_in_cons, taken_out_cons]
      push_cast
      omega
    · rw [paid_in_cons, taken_out_cons]
      push_cast
      omega
  · have sign := int64_neg_iff.not.mp negative
    have sum := uint64_add_signed object.availableAsset d (by omega) (by omega)
    refine ⟨⟨?_, ?_⟩, kept.base, kept.present, kept.word⟩
    · rw [paid_in_cons, taken_out_cons]
      push_cast
      omega
    · rw [paid_in_cons, taken_out_cons]
      push_cast
      omega

theorem revert_kept {cryptoShorthash : CryptoShorthash}
    (kept : AssetKept amount fee committed (d ::ₘ held) object)
    (returned : object.revertDelta cryptoShorthash (.assetObjectAdd d) = .ok after) :
    AssetKept amount fee committed held after := by
  have available := kept.available
  have upperbound := kept.upperbound
  have lower := object.availableAsset.toNat_lt
  have upper := object.availableAssetUpperbound.toNat_lt
  rw [taken_out_cons] at available
  rw [paid_in_cons] at upperbound
  push_cast at available upperbound
  simp only [RevertableObject.revertDelta] at returned
  split_ifs at returned with negative <;> cases returned
  · have sign := int64_neg_iff.mp negative
    have sum := uint64_sub_signed object.availableAsset d (by omega) (by omega)
    refine ⟨⟨?_, ?_⟩, kept.base, kept.present, kept.word⟩
    · simp only
      omega
    · simp only
      omega
  · have sign := int64_neg_iff.not.mp negative
    have sum := uint64_sub_signed object.availableAssetUpperbound d (by omega) (by omega)
    refine ⟨⟨?_, ?_⟩, kept.base, kept.present, kept.word⟩
    · simp only
      omega
    · simp only
      omega

theorem word_kept (kept : AssetKept amount fee committed held object)
    {baseObj : RevertableBaseObject} (only : SetsOnly .knownSupplyAsset baseObj) :
    AssetKept amount fee committed held { object with baseObj := baseObj } :=
  ⟨⟨kept.available, kept.upperbound⟩, kept.base, kept.present, only⟩

end Kept

/-! ## Every interleaving -/

def assetPool (amount fee : UInt64) (adds : Multiset (CallIds × Int64)) :
    Pool AssetRound AssetTask where
  shared := { object := .onBase (some (assetBase amount fee)), committed := 0 }
  tasks := adds.map fun add => .trying add.1 add.2

def PoolKept (amount fee : UInt64) (pool : Pool AssetRound AssetTask) : Prop :=
  AssetKept amount fee pool.shared.committed (reserved pool.tasks) pool.shared.object

section Run

variable {cryptoShorthash : CryptoShorthash} {amount fee : UInt64}

theorem asset_pool_kept (adds : Multiset (CallIds × Int64)) :
    PoolKept amount fee (assetPool amount fee adds) := by
  have idle : reserved (adds.map fun add => AssetTask.trying add.1 add.2) = 0 := by
    apply Multiset.eq_zero_of_forall_notMem
    intro d impossible
    obtain ⟨task, member, same⟩ := (Multiset.mem_filterMap _ _).mp impossible
    obtain ⟨add, _, rfl⟩ := Multiset.mem_map.mp member
    cases same
  unfold PoolKept assetPool
  rw [idle]
  refine ⟨⟨?_, ?_⟩, rfl, rfl, Or.inl rfl⟩
  · simp only [paid_in_zero, taken_out_zero, Nat.cast_zero, add_zero, sub_zero]
    rfl
  · simp only [paid_in_zero, taken_out_zero, Nat.cast_zero, add_zero, sub_zero]
    rfl

theorem asset_step_kept (pool : Pool AssetRound AssetTask) (label : AssetTask)
    (next : Pool AssetRound AssetTask) (kept : PoolKept amount fee pool)
    (step : Threads.Step (AssetMoves cryptoShorthash) pool label next) :
    PoolKept amount fee next := by
  cases step with
  | @move round after task left rest moved =>
      unfold PoolKept at kept ⊢
      simp only at kept ⊢
      cases moved with
      | granted returned =>
          rw [reserved_cons_none rfl] at kept
          rw [Multiset.singleton_add, reserved_cons_none rfl]
          exact word_kept kept (try_set_only kept.word returned)
      | conflicted returned =>
          rw [reserved_cons_none rfl] at kept
          rw [zero_add]
          exact word_kept kept (try_set_only kept.word returned)
      | loaded =>
          rw [reserved_cons_none rfl] at kept
          rw [Multiset.singleton_add, reserved_cons_none rfl]
          exact kept
      | missed fits =>
          rw [reserved_cons_none rfl] at kept
          rw [Multiset.singleton_add, reserved_cons_none rfl]
          exact kept
      | exchanged fits =>
          rw [reserved_cons_none rfl] at kept
          rw [Multiset.singleton_add, reserved_cons_outstanding]
          exact exchange_kept kept fits
      | refused overflows =>
          rw [reserved_cons_none rfl] at kept
          rw [Multiset.singleton_add, reserved_cons_none rfl]
          exact kept
      | committed returned =>
          rw [reserved_cons_outstanding] at kept
          rw [Multiset.singleton_add, reserved_cons_none rfl]
          exact commit_kept kept returned
      | reverted returned =>
          rw [reserved_cons_outstanding] at kept
          rw [Multiset.singleton_add, reserved_cons_none rfl]
          exact revert_kept kept returned
      | finalized =>
          rw [reserved_cons_none rfl] at kept
          rw [zero_add]
          exact word_kept kept (commit_only _ kept.word)
      | undone returned =>
          rw [reserved_cons_none rfl] at kept
          rw [zero_add]
          exact word_kept kept (destroy_only kept.word returned)

/-- With no amount reserved `commit_round` stores the counter that both hold. -/
theorem commit_round_asset {committed : Multiset Int64} {object : RevertableObject}
    (kept : AssetKept amount fee committed 0 object) :
    object.availableAsset = object.availableAssetUpperbound ∧
      ∃ after stored, object.commitRound = .ok after ∧
        after.getCommittedObject = some stored ∧
        stored.body = .asset { amount := object.availableAsset } := by
  have equal : object.availableAsset = object.availableAssetUpperbound := by
    have available := kept.available
    have upperbound := kept.upperbound
    rw [taken_out_zero] at available
    rw [paid_in_zero] at upperbound
    apply UInt64.toNat_inj.mp
    omega
  refine ⟨equal, ?_⟩
  rw [commit_round_eq, kept.base]
  have finish : ∀ fee : UInt64, ∃ after stored, (do
      let finished ← (atSwitch object (some (assetBase amount fee))).finishBase
        (assetBase amount fee)
      .ok finished.clearMods) = .ok after ∧ after.getCommittedObject = some stored ∧
        stored.body = .asset { amount := object.availableAsset } := by
    intro fee
    have counters : (atSwitch object (some (assetBase amount fee))).availableAsset =
        (atSwitch object (some (assetBase amount fee))).availableAssetUpperbound := equal
    have finished : (atSwitch object (some (assetBase amount fee))).finishBase
        (assetBase amount fee) = .ok _ := if_pos counters
    rw [finished]
    exact ⟨_, _, rfl, rfl, rfl⟩
  rcases kept.word with unset | set
  · rw [unset]
    simp only [agreedObject, bind, Except.bind, kept.present, Bool.false_eq_true, if_false]
    exact finish fee
  · rw [set]
    simp only [agreedObject, bind, Except.bind, kept.present, Bool.false_eq_true, if_false]
    exact finish 0

/-- The counters enclose the committed sum without wrapping; once no amount is
reserved they meet in it, and `commit_round` stores it. -/
structure Encloses (amount : UInt64) (pool : Pool AssetRound AssetTask) : Prop where
  available : (pool.shared.object.availableAsset.toNat : ℤ) =
    amount.toNat + amountSum pool.shared.committed - takenOut (reserved pool.tasks)
  upperbound : (pool.shared.object.availableAssetUpperbound.toNat : ℤ) =
    amount.toNat + amountSum pool.shared.committed + paidIn (reserved pool.tasks)
  nonnegative : 0 ≤ (pool.shared.object.availableAsset.toNat : ℤ)
  below : (pool.shared.object.availableAsset.toNat : ℤ) ≤
    amount.toNat + amountSum pool.shared.committed
  above : amount.toNat + amountSum pool.shared.committed ≤
    (pool.shared.object.availableAssetUpperbound.toNat : ℤ)
  bounded : (pool.shared.object.availableAssetUpperbound.toNat : ℤ) ≤ 2 ^ 64 - 1
  closed : reserved pool.tasks = 0 →
    pool.shared.object.availableAsset = pool.shared.object.availableAssetUpperbound ∧
      ∃ after stored final, pool.shared.object.commitRound = .ok after ∧
        after.getCommittedObject = some stored ∧ stored.body = .asset { amount := final } ∧
        (final.toNat : ℤ) = amount.toNat + amountSum pool.shared.committed

/-- At every point of every interleaving the counters enclose the committed
sum. -/
theorem asset_counters_enclose (cryptoShorthash : CryptoShorthash) (amount fee : UInt64)
    (adds : Multiset (CallIds × Int64)) (labels : List AssetTask)
    (pool : Pool AssetRound AssetTask)
    (run : Run (Threads.Step (AssetMoves cryptoShorthash)) (assetPool amount fee adds) labels
      pool) : Encloses amount pool := by
  have kept : PoolKept amount fee pool :=
    run_invariant (PoolKept amount fee) asset_step_kept (asset_pool_kept adds) run
  have available := kept.available
  have upperbound := kept.upperbound
  have highest := pool.shared.object.availableAssetUpperbound.toNat_lt
  have total := amount_sum_eq pool.shared.committed
  refine ⟨by omega, by omega, by omega, by omega, by omega, by omega, ?_⟩
  intro closed
  unfold PoolKept at kept
  rw [closed] at kept available
  obtain ⟨equal, after, stored, returned, held, body⟩ := commit_round_asset kept
  refine ⟨equal, after, stored, _, returned, held, body, ?_⟩
  rw [taken_out_zero] at available
  omega

/-- A deposit, up to its commit step. -/
theorem asset_counters_enclose_deposit : ∃ labels pool,
    Run (Threads.Step (AssetMoves fun _ => 0)) (assetPool 3 0 {(CallIds.first, 10)}) labels pool ∧
      pool.shared.committed = {10} ∧ Encloses 3 pool := by
  have run : ∃ labels pool,
      Run (Threads.Step (AssetMoves fun _ => 0)) (assetPool 3 0 {(CallIds.first, 10)}) labels
        pool ∧ pool.shared.committed = {10} :=
    ⟨_, _, .cons (.move 0 (.granted rfl)) (.cons (.move 0 .loaded)
      (.cons (.move 0 (.exchanged rfl)) (.cons (.move 0 (.committed rfl)) (.nil _)))), rfl⟩
  obtain ⟨labels, pool, run, committed⟩ := run
  exact ⟨labels, pool, run, committed, asset_counters_enclose (fun _ => 0) 3 0 _ labels pool run⟩

end Run

end Scs
