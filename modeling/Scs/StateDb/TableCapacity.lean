import Scs.TransactionContext.SameLedger

/-!
# The tables of new hashes from one block to the next

Within a block a table keeps its capacity. The end of the block empties it, and lets it
grow with the limit of its hash set.
-/

namespace Scs

set_option autoImplicit false

open Ledger Lockstep Runs TwoPhase

/-! ## The end of a round -/

/-- The capacity that the switch of `commit_round` leaves. -/
def tableCapacity (sizeIncrease : UInt64) (agreed : StorageObject) (capacity : UInt32) : UInt32 :=
  match agreed.body with
  | .hashSet set =>
      let newAllocSize := withExtraBuffer (sizeIncrease + set.maxSize.toUInt64).toUInt32
      if sizeIncrease > 0 then
        if newAllocSize < capacity then capacity else newAllocSize
      else capacity
  | _ => capacity

section Round

variable {object after : RevertableObject} {agreed : StorageObject} {sizeIncrease : UInt64}

theorem finish_base_capacity (finished : object.finishBase agreed = .ok after) :
    after.newHashes.capacity =
      tableCapacity object.sizeIncrease agreed object.newHashes.capacity := by
  obtain ⟨body, escrowedFee⟩ := agreed
  unfold RevertableObject.finishBase at finished
  unfold tableCapacity
  cases body with
  | nonnegativeInt64 value =>
      cases finished
      rfl
  | rawMemoryStorage raw =>
      cases finished
      rfl
  | hashSet set =>
      obtain ⟨merged, _, same⟩ := bind_ok_iff.mp finished
      cases same
      simp only [RevertableObject.finishTable, AtomicSet.resize]
      split_ifs <;> rfl
  | asset stored =>
      simp only at finished
      split_ifs at finished
      cases finished
      rfl
  | unconstrainedInt64 value => cases finished

theorem table_capacity_mono {small large : UInt32} (less : small ≤ large) :
    tableCapacity sizeIncrease agreed small ≤ tableCapacity sizeIncrease agreed large := by
  have bound := UInt32.le_iff_toNat_le.mp less
  unfold tableCapacity
  split
  · simp only
    split_ifs with raised first second second
    all_goals
      simp only [UInt32.lt_iff_toNat_lt, UInt32.le_iff_toNat_le] at *
      try omega
  · exact less

/-- Objects over the same base, on which the same was committed, keep the order of their
capacities. -/
theorem closed_capacity {cryptoShorthash : CryptoShorthash} {base : Option StorageObject}
    {committed : Multiset StorageDelta} {left right leftAfter rightAfter : RevertableObject}
    (leftClosed : Closed cryptoShorthash base committed left)
    (rightClosed : Closed cryptoShorthash base committed right)
    (less : left.newHashes.capacity ≤ right.newHashes.capacity)
    (leftReturned : left.commitRound = .ok leftAfter)
    (rightReturned : right.commitRound = .ok rightAfter) :
    leftAfter.newHashes.capacity ≤ rightAfter.newHashes.capacity := by
  obtain ⟨_, here, agreement, hereBase, accounts⟩ := leftClosed
  obtain ⟨_, there, required, thereBase, otherAccounts⟩ := rightClosed
  have booked := accounts.booked
  have otherBooked := otherAccounts.booked
  rw [live_none] at booked otherBooked
  have valued : agreement.value? = required.value? := by
    apply Option.ext
    intro value
    rw [agreed_value_iff accounts value, agreed_value_iff otherAccounts value]
  have stored : left.committedBase = right.committedBase := by
    rw [booked.committedBase, otherBooked.committedBase, hereBase, thereBase]
  have words : left.baseObj.obj = right.baseObj.obj := by
    rw [accounts.represents.obj, otherAccounts.represents.obj, valued]
  have raised : left.sizeIncrease = right.sizeIncrease :=
    UInt64.toNat_inj.mp (booked.limit.trans otherBooked.limit.symm)
  have deleted : left.deleteLastCommitted = true ↔ right.deleteLastCommitted = true :=
    booked.deleted.trans otherBooked.deleted.symm
  rw [commit_round_eq] at leftReturned rightReturned
  rw [stored, words] at leftReturned
  obtain ⟨agreed?, made, leftRest⟩ := bind_ok_iff.mp leftReturned
  obtain ⟨other?, again, rightRest⟩ := bind_ok_iff.mp rightReturned
  cases Except.ok.inj (made.symm.trans again)
  cases agreed? with
  | none =>
      cases leftRest
      cases rightRest
      exact less
  | some agreed =>
      simp only at leftRest rightRest
      by_cases gone : right.deleteLastCommitted = true
      · rw [if_pos (deleted.mpr gone)] at leftRest
        rw [if_pos gone] at rightRest
        cases leftRest
        cases rightRest
        exact less
      · rw [if_neg (deleted.not.mpr gone)] at leftRest
        rw [if_neg gone] at rightRest
        obtain ⟨leftFinished, leftDone, leftSame⟩ := bind_ok_iff.mp leftRest
        obtain ⟨rightFinished, rightDone, rightSame⟩ := bind_ok_iff.mp rightRest
        cases leftSame
        cases rightSame
        have leftCapacity : leftFinished.newHashes.capacity =
            tableCapacity left.sizeIncrease agreed left.newHashes.capacity :=
          (finish_base_capacity leftDone).trans rfl
        have rightCapacity : rightFinished.newHashes.capacity =
            tableCapacity right.sizeIncrease agreed right.newHashes.capacity :=
          (finish_base_capacity rightDone).trans rfl
        have ordered : leftFinished.newHashes.capacity ≤ rightFinished.newHashes.capacity := by
          rw [leftCapacity, rightCapacity, raised]
          exact table_capacity_mono less
        exact ordered

/-- What the trie keeps of two objects that settle alike keeps their order, too. -/
theorem kept_capacity {left right : RevertableObject}
    (settled : left.getCommittedObject = right.getCommittedObject)
    (less : left.newHashes.capacity ≤ right.newHashes.capacity) :
    left.kept.newHashes.capacity ≤ right.kept.newHashes.capacity := by
  cases stored : right.getCommittedObject with
  | none =>
      rw [kept_uncommitted stored, kept_uncommitted (settled.trans stored)]
      exact UInt32.le_refl _
  | some committed =>
      rw [kept_committed stored, kept_committed (settled.trans stored)]
      exact less

end Round

/-! ## Within a block -/

section Block

variable {cryptoShorthash : CryptoShorthash} {library : ContractLibrary} {Tx : Type*}
  {Database : Type} [DecidableEq Tx] {store : StateStore Database}
  {programs : Tx → Program} {before : GlobalContext Database} {moves : List (BlockMove Tx)}
  {block : BlockExecution Tx Database}

theorem run_table_capacity (view : ObjectStore cryptoShorthash store)
    (run : Run (MovesBlock cryptoShorthash library store programs) (.start before) moves block)
    (key : AddressAndKey) :
    (view.objects block.globalContext.stateDb key).newHashes.capacity =
      (view.objects before.stateDb key).newHashes.capacity := by
  have called {db after : Database} {target : AddressAndKey} {changed : RevertableObject}
      (objects : view.objects after = Function.update (view.objects db) target changed)
      (footing : SameFooting (view.objects db target) changed) :
      (view.objects after key).newHashes.capacity = (view.objects db key).newHashes.capacity := by
    rw [objects]
    by_cases here : key = target
    · subst here
      rw [Function.update_self]
      exact footing.capacity
    · rw [Function.update_of_ne here]
  apply run_invariant (fun block : BlockExecution Tx Database =>
    (view.objects block.globalContext.stateDb key).newHashes.capacity =
      (view.objects before.stateDb key).newHashes.capacity) _ rfl run
  intro block move next same moves
  cases block_move_cases moves with
  | accepted status phase applied =>
      obtain ⟨changed, returned, objects⟩ := view.push applied
      exact (called objects (try_add_delta_footing returned)).trans same
  | rejected status phase applied =>
      obtain ⟨changed, returned, objects⟩ := view.push applied
      exact (called objects (try_add_delta_footing returned)).trans same
  | committed found phase through =>
      obtain ⟨changed, returned, objects⟩ := view.through through
      exact (called objects (commit_footing returned)).trans same
  | destroyed found phase through =>
      obtain ⟨changed, returned, objects⟩ := view.through through
      exact (called objects (destroy_footing returned)).trans same
  | _ => exact same

end Block

end Scs
