import Scs.StorageProxy.LocalTotal
import Scs.TransactionContext.KeyCalls
import Scs.TransactionContext.SerialReplay
import Scs.TransactionContext.SnapshotReads

/-!
# A key that transactions count down

Semaphores and flags take from one count: every call on their key sets the count
and adds nothing or minus one to it, reads it or deletes it. A transaction then
pushes the sum of what it has taken.
-/

namespace Scs

set_option autoImplicit false

open Ledger Lockstep Runs TwoPhase Words

/-! ## The calls on the key -/

/-- `int64_set_add(key, count, -1)`. -/
def takeOne (key : AddressAndKey) (count : Int64) : ProxyCall :=
  .nonnegativeInt64SetAdd key count (-1)

def ProxyCall.takes (key : AddressAndKey) (count : Int64) : ProxyCall → Bool
  | .nonnegativeInt64SetAdd other setValue deltaValue =>
      other = key ∧ setValue = count ∧ deltaValue = -1
  | _ => false

def Program.acquisitions (key : AddressAndKey) (count : Int64) (program : Program)
    (results : List CallResult) : ℕ :=
  (program.made results).countP (ProxyCall.takes key count)

inductive CountedCall (key : AddressAndKey) (count : Int64) : ProxyCall → Prop
  | takes : CountedCall key count (takeOne key count)
  | opens : CountedCall key count (.nonnegativeInt64SetAdd key count 0)
  | reads : CountedCall key count (.get key)
  | deletes : CountedCall key count (.deleteObjectLast key)

theorem takes_iff {key : AddressAndKey} {count : Int64} {call : ProxyCall} :
    call.takes key count = true ↔ call = takeOne key count := by
  constructor
  · intro takes
    cases call with
    | nonnegativeInt64SetAdd other setValue deltaValue =>
        simp only [ProxyCall.takes, decide_eq_true_eq] at takes
        obtain ⟨rfl, rfl, rfl⟩ := takes
        rfl
    | _ => cases takes
  · rintro rfl
    exact decide_eq_true ⟨rfl, rfl, rfl⟩

theorem takes_key {key : AddressAndKey} {count : Int64} {call : ProxyCall}
    (takes : call.takes key count = true) : call.key? = some key := by
  rw [takes_iff.mp takes]
  rfl

/-! ## The view of one transaction -/

/-- The merged set-add of a transaction that has taken this much. -/
inductive CountedSum (count : Int64) : ℕ → Option SetAdd → Prop
  | untouched : CountedSum count 0 none
  | taken {amount : ℕ} {sum : Int64} (exactly : sum.toInt = -(amount : ℤ)) :
      CountedSum count amount (some { setValue := count, delta := sum })

structure CountedView (count : Int64) (taken : ℕ) (applicator : ProxyApplicator) : Prop where
  memoryWrite : applicator.memoryWrite = none
  doLimitIncrease : applicator.doLimitIncrease = false
  newHashes : applicator.newHashes = []
  hsClearThreshold : applicator.hsClearThreshold = none
  delta : applicator.delta = none
  merged : CountedSum count taken applicator.nnint64Delta
  shown : applicator.nnint64Delta ≠ none → applicator.isDeleted = false →
    applicator.current ≠ none

inductive CountedDelta (count : Int64) : StorageDelta → Prop
  | takes {sum : Int64} (nonpositive : sum.toInt ≤ 0) :
      CountedDelta count (.nonnegativeInt64SetAdd { setValue := count, delta := sum })
  | deletes : CountedDelta count .deleteLast

section View

variable {count : Int64} {taken : ℕ} {applicator next : ProxyApplicator}

theorem counted_view_start (base : Option StorageObject) : CountedView count 0 (.onBase base) where
  memoryWrite := rfl
  doLimitIncrease := rfl
  newHashes := rfl
  hsClearThreshold := rfl
  delta := rfl
  merged := .untouched
  shown impossible := absurd rfl impossible

/-- Amounts that are not positive add up exactly when the merge accepts them. -/
theorem make_nnint64_delta_exact {value oldDelta newDelta : Int64} {merged : SetAdd}
    (oldNonpositive : oldDelta.toInt ≤ 0) (newNonpositive : newDelta.toInt ≤ 0)
    (returned : makeNnint64Delta value oldDelta newDelta = .ok (some merged)) :
    merged.setValue = value ∧ merged.delta.toInt = oldDelta.toInt + newDelta.toInt := by
  have oldLowest := oldDelta.le_toInt
  have newLowest := newDelta.le_toInt
  unfold makeNnint64Delta at returned
  by_cases negative : newDelta < 0
  · rw [if_pos negative] at returned
    by_cases overflows : addOverflowInt64 newDelta.toInt oldDelta.toInt = true
    · rw [if_pos overflows] at returned
      cases returned
    have stays := add_overflow_int64_iff.not.mp overflows
    have sum := int64_add_exact newDelta oldDelta (by omega) (by omega)
    rw [if_neg overflows] at returned
    simp only at returned
    split_ifs at returned <;> cases returned
    · exact ⟨rfl, sum.trans (add_comm _ _)⟩
    · exact ⟨rfl, sum.trans (add_comm _ _)⟩
  · have zero : newDelta.toInt = 0 := by
      have nonnegative := int64_neg_iff.not.mp negative
      omega
    have stays : ¬ addOverflowInt64 oldDelta.toInt newDelta.toInt = true := by
      rw [add_overflow_int64_iff]
      omega
    have sum := int64_add_exact newDelta oldDelta (by omega) (by omega)
    rw [if_neg negative] at returned
    cases returned
    simp only [if_neg stays]
    exact ⟨trivial, sum.trans (add_comm _ _)⟩

theorem set_add_counts {amount : Int64} (view : CountedView count taken applicator)
    (nonpositive : amount.toInt ≤ 0)
    (accepted : applicator.tryApply (makeNonnegativeInt64SetAdd count amount) = .ok (true, next)) :
    CountedView count (taken + (-amount.toInt).toNat) next ∧
      next.isDeleted = applicator.isDeleted := by
  obtain ⟨setAdd, same⟩ : ∃ setAdd : SetAdd, setAdd = { setValue := count, delta := amount } :=
    ⟨_, rfl⟩
  have pushes : makeNonnegativeInt64SetAdd count amount = .nonnegativeInt64SetAdd setAdd := by
    rw [same]
    rfl
  rw [pushes] at accepted
  cases try_apply_cases accepted with
  | typed present applied =>
      change ProxyApplicator.applySetAdd setAdd applicator = .ok (true, next) at applied
      subst same
      unfold ProxyApplicator.applySetAdd at applied
      simp only at applied
      split_ifs at applied
      · cases applied
      obtain ⟨answer, returned, rest⟩ := bind_ok_iff.mp applied
      cases answer with
      | none => cases rest
      | some merged =>
          obtain ⟨object, made, rest⟩ := bind_ok_iff.mp rest
          obtain ⟨value, valued, rest⟩ := bind_ok_iff.mp rest
          cases rest
          refine ⟨{ view with
            merged := ?_
            shown := fun _ _ => Option.some_ne_none _ }, rfl⟩
          have summed := view.merged
          generalize applicator.nnint64Delta = earlier at returned summed
          cases summed with
          | untouched =>
              have zero : (0 : Int64).toInt = 0 := rfl
              obtain ⟨sameValue, sum⟩ := make_nnint64_delta_exact zero.le nonpositive returned
              obtain ⟨setValue, delta⟩ := merged
              cases sameValue
              apply CountedSum.taken
              simp only at sum
              omega
          | @taken amount before exactly =>
              have earlier : before.toInt ≤ 0 := by omega
              obtain ⟨sameValue, sum⟩ := make_nnint64_delta_exact earlier nonpositive returned
              obtain ⟨setValue, delta⟩ := merged
              cases sameValue
              apply CountedSum.taken
              simp only at sum
              omega

theorem delete_counted (view : CountedView count taken applicator)
    (accepted : applicator.tryApply makeDeleteLast = .ok (true, next)) :
    CountedView count taken next ∧ next.isDeleted = true := by
  cases accepted
  exact ⟨{ view with shown := fun _ impossible => by cases impossible }, rfl⟩

theorem get_deltas_counted (view : CountedView count taken applicator) :
    applicator.getDeltas =
      (applicator.nnint64Delta.map StorageDelta.nonnegativeInt64SetAdd).toList ++
        if applicator.isDeleted then [.deleteLast] else [] := by
  unfold ProxyApplicator.getDeltas
  rw [view.memoryWrite, view.doLimitIncrease, view.newHashes, view.hsClearThreshold, view.delta]
  have shown := view.shown
  cases gone : applicator.isDeleted with
  | true => cases applicator.nnint64Delta <;> rfl
  | false =>
      cases pushed : applicator.nnint64Delta with
      | none => cases applicator.current <;> rfl
      | some setAdd =>
          obtain ⟨object, opened⟩ := Option.ne_none_iff_exists'.mp
            (shown (by rw [pushed]; exact Option.some_ne_none _) gone)
          rw [opened]
          rfl

theorem counted_deltas (view : CountedView count taken applicator) :
    ∀ delta ∈ applicator.getDeltas, CountedDelta count delta := by
  intro delta member
  rw [get_deltas_counted view] at member
  have summed := view.merged
  generalize applicator.nnint64Delta = earlier at member summed
  rcases List.mem_append.mp member with sum | deleted
  · cases summed with
    | untouched => cases sum
    | taken exactly =>
        rw [List.mem_singleton.mp sum]
        exact .takes (by omega)
  · split_ifs at deleted
    · rw [List.mem_singleton.mp deleted]
      exact .deletes
    · cases deleted

theorem counted_withdrawals (view : CountedView count taken applicator) :
    total StorageDelta.withdrawal ↑applicator.getDeltas = taken := by
  rw [get_deltas_counted view, ← Multiset.coe_add, total_add]
  have nothing : total StorageDelta.withdrawal
      ↑(if applicator.isDeleted then [StorageDelta.deleteLast] else []) = 0 := by
    split_ifs <;> rfl
  rw [nothing, add_zero]
  have summed := view.merged
  generalize applicator.nnint64Delta = earlier at summed
  cases summed with
  | untouched => rfl
  | taken exactly =>
      rw [Option.map_some, Option.toList_some, Multiset.coe_singleton, total,
        Multiset.map_singleton, Multiset.sum_singleton]
      simp only [StorageDelta.withdrawal]
      omega

theorem deleted_pushed (view : CountedView count taken applicator) :
    StorageDelta.deleteLast ∈ applicator.getDeltas ↔ applicator.isDeleted = true := by
  rw [get_deltas_counted view]
  cases applicator.nnint64Delta <;> cases applicator.isDeleted <;> simp

theorem take_one_accepted {base : Option StorageObject} (admits : Admits base .nonnegativeInt64)
    (room : 0 < count.toInt) :
    ∃ after, (ProxyApplicator.onBase base).tryApply (makeNonnegativeInt64SetAdd count (-1)) =
      .ok (true, after) := by
  have one : (-1 : Int64).toInt = -1 := rfl
  have sum : (-1 + 0 : Int64) = -1 := by decide
  have highest := count.toInt_lt
  have left := int64_add_exact count (-1) (by omega) (by omega)
  have stays : ¬ addOverflowInt64 count.toInt (-1 : Int64).toInt = true := by
    rw [add_overflow_int64_iff]
    omega
  have typed : ∀ object, (ProxyApplicator.onBase base).current = some object →
      object.body.type = .nonnegativeInt64 := by
    rintro object same
    cases same
    exact admits _ rfl
  have allowed : (ProxyApplicator.onBase base).deltaApplyTypeGuard
      (makeNonnegativeInt64SetAdd count (-1)) = .ok true := by
    cases base with
    | none => rfl
    | some object => exact congrArg Except.ok (decide_eq_true (typed object rfl))
  have merged : makeNnint64Delta count 0 (-1) = .ok (some { setValue := count, delta := -1 }) := by
    have covered : ¬ count + -1 < 0 := by
      rw [int64_neg_iff]
      omega
    unfold makeNnint64Delta
    rw [if_pos (by decide), if_neg (by decide)]
    simp only
    rw [sum, if_neg stays, if_neg covered]
  obtain ⟨object, made, _⟩ := make_current_returns (by decide) typed
  have valued : currentNnint64 { setValue := count, delta := -1 } = .ok (count + -1) := if_neg stays
  have applied : ∃ after, ProxyApplicator.applySetAdd { setValue := count, delta := -1 }
      (.onBase base) = .ok (true, after) :=
    ⟨_, bind_ok_iff.mpr ⟨_, merged, bind_ok_iff.mpr ⟨_, made, bind_ok_iff.mpr ⟨_, valued, rfl⟩⟩⟩⟩
  obtain ⟨after, applied⟩ := applied
  have present : ¬ (ProxyApplicator.onBase base).isDeleted = true := Bool.false_ne_true
  refine ⟨after, ?_⟩
  unfold ProxyApplicator.tryApply
  rw [if_neg (by intro impossible; cases impossible), if_neg present, allowed]
  exact applied

end View

/-! ## A transaction that counts down -/

section Context

variable {library : ContractLibrary} {committed : CommittedValues} {contractDb : ContractDB}
  {key : AddressAndKey} {count : Int64} {program : Program} {context after : TransactionContext}
  {next : ProxyCall} {result : CallResult}

structure CountedContext (committed : CommittedValues) (key : AddressAndKey) (count : Int64)
    (program : Program) (context : TransactionContext) : Prop where
  view : CountedView count (program.acquisitions key count context.results)
    (context.storageProxy.localOf committed key)
  deleted : (context.storageProxy.localOf committed key).isDeleted = true ↔
    .deleteObjectLast key ∈ program.made context.results
  fresh : (∀ call ∈ program.made context.results, call.key? ≠ some key) →
    context.storageProxy.localOf committed key = .onBase (committed key)

theorem counted_context_start : CountedContext committed key count program .start where
  view := counted_view_start _
  deleted := by
    constructor
    · intro impossible
      cases impossible
    · intro impossible
      cases impossible
  fresh _ := rfl

theorem acquisitions_snoc (program : Program) (results : List CallResult) (result : CallResult)
    (called : program results = .call next) :
    program.acquisitions key count (results ++ [result]) =
      program.acquisitions key count results + if next.takes key count then 1 else 0 := by
  rw [Program.acquisitions, Program.made_snoc, called, List.countP_append]
  exact congrArg _ List.countP_singleton

/-- A call of the key takes what it says and deletes if it says so. -/
theorem counted_call_view {taken : ℕ}
    (view : CountedView count taken (context.storageProxy.localOf committed key))
    (call : CountedCall key count next)
    (returned : context.perform library committed contractDb next = .ok (result, after)) :
    CountedView count (taken + if next.takes key count then 1 else 0)
        (after.storageProxy.localOf committed key) ∧
      ((after.storageProxy.localOf committed key).isDeleted = true ↔
        (context.storageProxy.localOf committed key).isDeleted = true ∨
          next = .deleteObjectLast key) := by
  cases call with
  | takes =>
      obtain ⟨kept, same⟩ := set_add_counts view (by decide)
        (wrote_local (written_wrote returned))
      rw [if_pos (takes_iff.mpr rfl), same]
      exact ⟨kept, (or_iff_left fun impossible => by cases impossible).symm⟩
  | opens =>
      obtain ⟨kept, same⟩ := set_add_counts view (by decide)
        (wrote_local (written_wrote returned))
      have nothing : ¬ (ProxyCall.nonnegativeInt64SetAdd key count 0).takes key count = true := by
        intro takes
        cases takes_iff.mp takes
      rw [if_neg nothing, same]
      exact ⟨kept, (or_iff_left fun impossible => by cases impossible).symm⟩
  | reads =>
      have same : after.storageProxy.localOf committed key =
          context.storageProxy.localOf committed key := by
        cases returned
        exact StorageProxy.get_local_local
      have idle : ¬ (ProxyCall.get key).takes key count = true := by
        intro impossible
        cases impossible
      rw [same, if_neg idle]
      exact ⟨view, (or_iff_left fun impossible => by cases impossible).symm⟩
  | deletes =>
      obtain ⟨kept, gone⟩ := delete_counted view (wrote_local (written_wrote returned))
      have idle : ¬ (ProxyCall.deleteObjectLast key).takes key count = true := by
        intro impossible
        cases impossible
      rw [if_neg idle]
      exact ⟨kept, iff_of_true gone (.inr rfl)⟩

theorem advance_counted
    (kept : program.CallsOn key (CountedCall key count) context.results →
      CountedContext committed key count program context)
    (calls : program.CallsOn key (CountedCall key count)
      (context.advance library committed contractDb program).results) :
    CountedContext committed key count program
      (context.advance library committed contractDb program) := by
  have before := kept (Program.calls_on_prefix calls (advance_results _ _ _ _ _))
  generalize advanced : context.advance library committed contractDb program = final at calls
  have cases : TransactionContext.AdvanceCases library committed contractDb program context
      (context.advance library committed contractDb program) :=
    TransactionContext.advance_cases program context
  rw [advanced] at cases
  cases cases with
  | stopped status => exact before
  | returned status ended => exact ⟨before.view, before.deleted, before.fresh⟩
  | threw status => exact ⟨before.view, before.deleted, before.fresh⟩
  | @performed next result after status called returned =>
      have made : program.made (context.results ++ [result]) =
          program.made context.results ++ [next] := by
        rw [Program.made_snoc, called]
        rfl
      by_cases own : next.key? = some key
      · have call := calls _ (List.prefix_append _ _) next called own
        obtain ⟨view, deleted⟩ := counted_call_view before.view call returned
        refine ⟨?_, ?_, ?_⟩
        · rw [acquisitions_snoc program context.results result called]
          exact view
        · rw [made, List.mem_append, List.mem_singleton, ← before.deleted, deleted]
          exact or_congr_right eq_comm
        · intro elsewhere
          rw [made] at elsewhere
          exact absurd own (elsewhere next (List.mem_append_right _ (List.mem_singleton_self _)))
      · have same := perform_elsewhere own returned
        have idle : ¬ next.takes key count = true := fun takes => own (takes_key takes)
        refine ⟨?_, ?_, ?_⟩
        · rw [acquisitions_snoc program context.results result called, if_neg idle, same]
          exact before.view
        · rw [made, List.mem_append, List.mem_singleton, same, before.deleted]
          apply (or_iff_left _).symm
          rintro rfl
          exact own rfl
        · intro elsewhere
          rw [same]
          apply before.fresh
          rw [made] at elsewhere
          exact fun call member => elsewhere call (List.mem_append_left _ member)

end Context

end Scs
