import Scs.Sdk.CountedBlock

/-!
# A key that transactions add to (`cpp_contracts/sdk/nonnegative_int64.h`)

Every call on the key is an `int64_add` or an `int64_get`. The view of a
transaction then keeps one set-add of the committed value, whose delta is the sum of
what was added, cut off at `INT64_MAX`, and never takes more than the value.
-/

namespace Scs

set_option autoImplicit false

open Ledger Lockstep Runs TwoPhase Words

/-! ## The calls on the key -/

inductive AddedCall (key : AddressAndKey) : ProxyCall → Prop
  | adds (deltaValue : Int64) : AddedCall key (.nonnegativeInt64Add key deltaValue)
  | reads : AddedCall key (.get key)

def ProxyCall.adds (key : AddressAndKey) : ProxyCall → ℤ
  | .nonnegativeInt64Add other deltaValue => if other = key then deltaValue.toInt else 0
  | _ => 0

def addedTo (key : AddressAndKey) (calls : List ProxyCall) : ℤ :=
  (calls.map (ProxyCall.adds key)).sum

/-- `int64_get`: a key that holds nothing counts as zero. -/
def heldInt64 : Option StorageObject → Option Int64
  | none => some 0
  | some object =>
      match object.body with
      | .nonnegativeInt64 value => some value
      | _ => none

section Added

variable (key : AddressAndKey)

@[simp] theorem added_to_nil : addedTo key [] = 0 := rfl

@[simp] theorem added_to_append (earlier later : List ProxyCall) :
    addedTo key (earlier ++ later) = addedTo key earlier + addedTo key later := by
  rw [addedTo, List.map_append, List.sum_append]
  rfl

@[simp] theorem added_to_cons (call : ProxyCall) (rest : List ProxyCall) :
    addedTo key (call :: rest) = call.adds key + addedTo key rest := rfl

variable {key}

theorem adds_elsewhere {call : ProxyCall} (apart : call.key? ≠ some key) : call.adds key = 0 := by
  cases call with
  | nonnegativeInt64Add other deltaValue =>
      exact if_neg fun same => apart (congrArg some same)
  | _ => rfl

end Added

/-! ## The view of one transaction -/

inductive AddedView (base : Option StorageObject) (value : Int64) :
    Int64 → ProxyApplicator → Prop
  | untouched : AddedView base value 0 (.onBase base)
  | added {sum : Int64} {object : StorageObject} : AddedView base value sum
      { ProxyApplicator.onBase base with
        current := some object
        nnint64Delta := some { setValue := value, delta := sum } }

section View

variable {base : Option StorageObject} {value sum : Int64} {applicator next : ProxyApplicator}

theorem added_base_value (held : heldInt64 base = some value)
    (view : AddedView base value sum applicator) :
    applicator.getBaseNnint64SetValue = some value := by
  cases view with
  | added => rfl
  | untouched =>
      cases base with
      | none => exact held
      | some object => exact held

structure MergesTo (value oldDelta newDelta sum : Int64) : Prop where
  upper : sum.toInt ≤ oldDelta.toInt + newDelta.toInt
  exactly : oldDelta.toInt + newDelta.toInt < 2 ^ 63 →
    sum.toInt = oldDelta.toInt + newDelta.toInt
  covered : 0 ≤ value.toInt + sum.toInt

theorem make_nnint64_delta_merges {oldDelta newDelta : Int64} {merged : SetAdd}
    (nonnegative : 0 ≤ value.toInt) (earlier : 0 ≤ value.toInt + oldDelta.toInt)
    (returned : makeNnint64Delta value oldDelta newDelta = .ok (some merged)) :
    merged.setValue = value ∧ MergesTo value oldDelta newDelta merged.delta := by
  have oldLowest := oldDelta.le_toInt
  have oldHighest := oldDelta.toInt_lt
  have newLowest := newDelta.le_toInt
  have newHighest := newDelta.toInt_lt
  have highest := value.toInt_lt
  unfold makeNnint64Delta at returned
  by_cases negative : newDelta < 0
  · have below := int64_neg_iff.mp negative
    rw [if_pos negative] at returned
    by_cases overflows : addOverflowInt64 newDelta.toInt oldDelta.toInt = true
    · rw [if_pos overflows] at returned
      cases returned
    have stays := add_overflow_int64_iff.not.mp overflows
    have total := int64_add_exact newDelta oldDelta (by omega) (by omega)
    rw [if_neg overflows] at returned
    simp only at returned
    by_cases exceeds : addOverflowInt64 value.toInt (newDelta + oldDelta).toInt = true
    · have high := add_overflow_int64_iff.mp exceeds
      rw [if_pos exceeds] at returned
      split_ifs at returned <;> cases returned
      exact ⟨rfl, by rw [total]; omega, fun _ => by rw [total]; omega,
        by rw [total] at high ⊢; omega⟩
    · have fits := add_overflow_int64_iff.not.mp exceeds
      have left := int64_add_exact value (newDelta + oldDelta) (by omega) (by omega)
      rw [if_neg exceeds] at returned
      split_ifs at returned with short <;> cases returned
      have enough := int64_neg_iff.not.mp short
      rw [left] at enough
      exact ⟨rfl, by rw [total]; omega, fun _ => by rw [total]; omega, not_lt.mp enough⟩
  · have above := int64_neg_iff.not.mp negative
    rw [if_neg negative] at returned
    cases returned
    by_cases overflows : addOverflowInt64 oldDelta.toInt newDelta.toInt = true
    · have high := add_overflow_int64_iff.mp overflows
      have top : Int64.maxValue.toInt = 2 ^ 63 - 1 := rfl
      simp only [if_pos overflows]
      exact ⟨trivial, by rw [top]; omega, fun below => by omega, by rw [top]; omega⟩
    · have stays := add_overflow_int64_iff.not.mp overflows
      have total := int64_add_exact newDelta oldDelta (by omega) (by omega)
      simp only [if_neg overflows]
      exact ⟨trivial, by rw [total]; omega, fun _ => by rw [total]; omega, by rw [total]; omega⟩

theorem add_merges {amount : Int64} (nonnegative : 0 ≤ value.toInt)
    (view : AddedView base value sum applicator) (covered : 0 ≤ value.toInt + sum.toInt)
    (accepted : applicator.tryApply (makeNonnegativeInt64SetAdd value amount) = .ok (true, next)) :
    ∃ merged, AddedView base value merged next ∧ MergesTo value sum amount merged := by
  have present : applicator.isDeleted = false := by cases view <;> rfl
  have before : applicator.nnint64Delta = none ∧ sum = 0 ∨
      applicator.nnint64Delta = some { setValue := value, delta := sum } := by
    cases view with
    | untouched => exact .inl ⟨rfl, rfl⟩
    | added => exact .inr rfl
  have shape (object : StorageObject) (setAdd : SetAdd) :
      { applicator with current := some object, nnint64Delta := some setAdd } =
        { ProxyApplicator.onBase base with
          current := some object
          nnint64Delta := some setAdd } := by
    cases view <;> rfl
  obtain ⟨setAdd, same⟩ : ∃ setAdd : SetAdd, setAdd = { setValue := value, delta := amount } :=
    ⟨_, rfl⟩
  have pushes : makeNonnegativeInt64SetAdd value amount = .nonnegativeInt64SetAdd setAdd := by
    rw [same]
    rfl
  rw [pushes] at accepted
  cases try_apply_cases accepted with
  | typed _ applied =>
      change ProxyApplicator.applySetAdd setAdd applicator = .ok (true, next) at applied
      subst same
      unfold ProxyApplicator.applySetAdd at applied
      simp only at applied
      split_ifs at applied
      · cases applied
      obtain ⟨answer, returned, rest⟩ := bind_ok_iff.mp applied
      cases answer with
      | none => cases rest
      | some merged =>
          obtain ⟨object, made, rest⟩ := bind_ok_iff.mp rest
          obtain ⟨stored, valued, rest⟩ := bind_ok_iff.mp rest
          cases rest
          rw [shape]
          have merges : merged.setValue = value ∧ MergesTo value sum amount merged.delta := by
            rcases before with ⟨fresh, rfl⟩ | again
            · rw [fresh] at returned
              exact make_nnint64_delta_merges nonnegative covered returned
            · rw [again] at returned
              exact make_nnint64_delta_merges nonnegative covered returned
          obtain ⟨setValue, delta⟩ := merged
          obtain ⟨rfl, merges⟩ := merges
          exact ⟨delta, .added, merges⟩

inductive AddedDeltas (value : Int64) (sum : Int64) : List StorageDelta → Prop
  | untouched (nothing : sum = 0) : AddedDeltas value sum []
  | added : AddedDeltas value sum [.nonnegativeInt64SetAdd { setValue := value, delta := sum }]

theorem get_deltas_added (view : AddedView base value sum applicator) :
    AddedDeltas value sum applicator.getDeltas := by
  cases view with
  | untouched =>
      have idle : CountedView 0 0 (.onBase base) := counted_view_start _
      rw [get_deltas_counted idle]
      exact .untouched rfl
  | added => exact .added

end View

/-! ## A transaction that adds -/

section Context

variable {library : ContractLibrary} {committed : CommittedValues} {contractDb : ContractDB}
  {key : AddressAndKey} {value sum : Int64} {program : Program}
  {context after : TransactionContext} {next : ProxyCall} {result : CallResult}

theorem added_call_merges (held : heldInt64 (committed key) = some value)
    (nonnegative : 0 ≤ value.toInt)
    (view : AddedView (committed key) value sum (context.storageProxy.localOf committed key))
    (covered : 0 ≤ value.toInt + sum.toInt) (call : AddedCall key next)
    (returned : context.perform library committed contractDb next = .ok (result, after)) :
    ∃ merged, AddedView (committed key) value merged
        (after.storageProxy.localOf committed key) ∧
      merged.toInt ≤ sum.toInt + next.adds key ∧
      (sum.toInt + next.adds key < 2 ^ 63 → merged.toInt = sum.toInt + next.adds key) ∧
      0 ≤ value.toInt + merged.toInt := by
  cases call with
  | adds deltaValue =>
      have own : (ProxyCall.nonnegativeInt64Add key deltaValue).adds key = deltaValue.toInt :=
        if_pos rfl
      unfold TransactionContext.perform StorageProxy.nonnegativeInt64Add at returned
      simp only [StorageProxy.get_local_eq, added_base_value held view] at returned
      obtain ⟨merged, kept, merges⟩ := add_merges nonnegative view covered
        (wrote_local (written_touched returned))
      rw [own]
      exact ⟨merged, kept, merges.upper, merges.exactly, merges.covered⟩
  | reads =>
      have same : after.storageProxy.localOf committed key =
          context.storageProxy.localOf committed key := by
        cases returned
        exact StorageProxy.get_local_local
      have idle : (ProxyCall.get key).adds key = 0 := rfl
      rw [same, idle, add_zero]
      exact ⟨sum, view, le_refl _, fun _ => rfl, covered⟩

end Context

end Scs
