import Scs.Object.NewHashTable
import Scs.Object.Session

/-!
# What a deletion leaves (`RevertableObject::commit_round`)

The deleting branch clears the accumulators while the deleted object is still
in place, and clears the new-hash table without resizing it. The object left is
compared with a new one by everything that later calls show.
-/

namespace Scs

set_option autoImplicit false

open Ledger Lockstep Runs

/-! ## What calls show -/

inductive SoleCall where
  | tryAddDelta (ids : CallIds) (delta : StorageDelta)
  | commit (place : Nat)
  | revert (place : Nat) (newId : UniqueId)
  | commitRound

inductive Shown where
  | answered (accepted : Bool)
  | done
  | committed (object : Option StorageObject)
  | failed (fault : Fault)
  deriving DecidableEq, Repr

structure SoleUse where
  object : RevertableObject
  held : List DeltaRewind

namespace SoleUse

def start (object : RevertableObject) : SoleUse where
  object := object
  held := []

variable (cryptoShorthash : CryptoShorthash)

/-- One call, and what it shows. Naming a rewind that is not open calls nothing. -/
def perform (use : SoleUse) : SoleCall → Shown × Option SoleUse
  | .tryAddDelta ids delta =>
      match use.object.tryAddDelta cryptoShorthash ids delta with
      | .ok (some rewind, after) =>
          (.answered true, some { object := after, held := use.held ++ [rewind] })
      | .ok (none, after) => (.answered false, some { use with object := after })
      | .error fault => (.failed fault, none)
  | .commit place =>
      match use.held[place]? with
      | none => (.done, some use)
      | some rewind =>
          match rewind.commit use.object with
          | .ok after => (.done, some { object := after, held := use.held.eraseIdx place })
          | .error fault => (.failed fault, none)
  | .revert place newId =>
      match use.held[place]? with
      | none => (.done, some use)
      | some rewind =>
          match rewind.destroy cryptoShorthash newId use.object with
          | .ok after => (.done, some { object := after, held := use.held.eraseIdx place })
          | .error fault => (.failed fault, none)
  | .commitRound =>
      match use.object.commitRound with
      | .ok after => (.committed after.getCommittedObject, some { use with object := after })
      | .error fault => (.failed fault, none)

end SoleUse

def Indistinguishable (cryptoShorthash : CryptoShorthash) (left right : RevertableObject) :
    Prop :=
  ∀ calls : List SoleCall,
    observe (SoleUse.perform cryptoShorthash) calls (.start left) =
      observe (SoleUse.perform cryptoShorthash) calls (.start right)

/-! ## The object left by a deletion -/

/-- A new object but for its table and its asset counters. -/
def leftOver (capacity : UInt32) (amount : UInt64) : RevertableObject :=
  { RevertableObject.fresh with
    newHashes := .vacant capacity
    availableAsset := amount
    availableAssetUpperbound := amount }

theorem fresh_left_over :
    RevertableObject.fresh = leftOver (withExtraBuffer startHashSetSize) 0 := rfl

section LeftOver

variable {cryptoShorthash : CryptoShorthash} {opening : Opening}
  {committed : Multiset StorageDelta} {agreement : Agreement}
  {object start after : RevertableObject}

theorem left_over_start (cryptoShorthash : CryptoShorthash) (capacity : UInt32)
    (amount : UInt64) :
    RoundStart cryptoShorthash { base := none, supply := amount } (leftOver capacity amount) :=
  round_start_of_booked ⟨rfl, rfl, rfl⟩
    (booked_rest rfl rfl rfl rfl rfl ⟨_, rfl⟩ rfl rfl rfl rfl rfl) ⟨_, rfl⟩

theorem agreed_object_amount {base : Option StorageObject} {value? : Option StorageDeltaClass}
    {agreed : StorageObject} (made : agreedObject base value? = .ok (some agreed)) :
    assetAmount (some agreed) = assetAmount base := by
  cases value? with
  | none =>
      have same : base = some agreed := Except.ok.inj made
      rw [same]
  | some value =>
      obtain ⟨fromClass, from_class, same⟩ := bind_ok_iff.mp made
      cases same
      unfold objectFromDeltaClass at from_class
      simp only at from_class
      split_ifs at from_class with mismatch
      cases base with
      | none => cases value <;> cases from_class <;> rfl
      | some stored =>
          obtain ⟨body, escrowedFee⟩ := stored
          simp only [ne_eq, Bool.not_eq_true, decide_eq_false_iff_not, not_not] at mismatch
          cases value <;> cases body <;> cases mismatch <;> cases from_class <;> rfl

theorem commit_round_left_over
    (accounts : Accounts cryptoShorthash opening 0 committed agreement object)
    (last : StorageDelta.deleteLast ∈ committed) (returned : object.commitRound = .ok after) :
    after = leftOver object.newHashes.capacity (assetAmount opening.base) := by
  have booked := accounts.booked
  rw [live_none] at booked
  have deleted := booked.deleted.mpr last
  have reset := reset_represents accounts.represents
  rw [commit_round_eq, booked.committedBase, accounts.represents.obj] at returned
  obtain ⟨start, made, rest⟩ := bind_ok_iff.mp returned
  cases start with
  | none =>
      obtain ⟨absent, unset⟩ := agreed_object_none made
      have untyped : opening.requiredType = none := by
        rw [Opening.requiredType, absent]
        rfl
      rw [unset, untyped] at reset
      cases rest
      have words : object.baseObj.commitRoundAndReset.2 = .fresh := by
        have unheld : object.baseObj.obj = none := by
          rw [accounts.represents.obj, unset]
        have required := accounts.represents.requiredType
        rw [untyped] at required
        simp only [RevertableBaseObject.commitRoundAndReset, unheld, required]
        rfl
      rw [absent]
      simp only [RevertableObject.clearMods, atSwitch, words]
      rfl
  | some agreed =>
      simp only [deleted, if_true] at rest
      cases rest
      rw [← agreed_object_amount made]
      have words : (object.baseObj.commitRoundAndReset.2).clearRequiredType = .fresh := by
        unfold RevertableBaseObject.commitRoundAndReset RevertableBaseObject.clearRequiredType
        cases object.baseObj.obj <;> rfl
      simp only [RevertableObject.clearMods, atSwitch, words]
      rfl

theorem run_capacity {calls : List Call} {session : Session}
    (run : Run (Step cryptoShorthash) (.start start) calls session) :
    session.object.newHashes.capacity = start.newHashes.capacity := by
  refine run_invariant
    (fun session => session.object.newHashes.capacity = start.newHashes.capacity) ?_ rfl run
  intro before call next same step
  cases step_cases step with
  | accept returned => exact (try_add_delta_footing returned).capacity.trans same
  | reject returned => exact (try_add_delta_footing returned).capacity.trans same
  | commit _ returned => exact (commit_footing returned).capacity.trans same
  | revert _ returned => exact (destroy_footing returned).capacity.trans same

end LeftOver

/-! ## Telling it from a new object -/

section Tell

variable {cryptoShorthash : CryptoShorthash} {use : SoleUse} {free : Nat}

/-- No object is committed and no rewind is open; the table has `free` slots
left. -/
structure WithSlots (cryptoShorthash : CryptoShorthash) (free : Nat) (use : SoleUse) : Prop where
  closed : use.held = []
  accounts : ∃ amount agreement,
    Accounts cryptoShorthash { base := none, supply := amount } 0 0 agreement use.object
  slots : use.object.newHashes.freeSlots = free

theorem left_over_slots (cryptoShorthash : CryptoShorthash) (capacity : UInt32)
    (amount : UInt64) :
    WithSlots cryptoShorthash capacity.toNat (.start (leftOver capacity amount)) where
  closed := rfl
  accounts := ⟨amount, .undecided, (left_over_start cryptoShorthash capacity amount).accounts⟩
  slots := (left_over_start cryptoShorthash capacity amount).vacant

theorem insert_affordable (amount : UInt64) (hash : HashSetEntry) :
    Affordable { base := none, supply := amount } (live 0 0) 0 (.hashSetInsert hash) := by
  have bounded := amount.toNat_lt
  have room : (Opening.mk none amount).limit = 64 := rfl
  refine ⟨⟨rfl, ?_, ?_⟩, ?_, ?_, ?_, ?_⟩
  · intro value _ type impossible
    cases impossible
  · intro value _ other member
    cases Multiset.notMem_zero _ member
  · intro setAdd impossible
    cases impossible
  · intro other _
    refine ⟨?_, List.not_mem_nil, Multiset.notMem_zero _⟩
    have none_live : (inserts (live 0 0)).card = 0 := rfl
    have none_committed : (Opening.mk none amount).hashes.length = 0 := rfl
    omega
  · exact Nat.zero_le _
  · simp only [total_zero, live_none, StorageDelta.assetIn]
    omega

theorem insert_revert_slots (table : WithSlots cryptoShorthash (free + 1) use) {ids : CallIds}
    {hash : HashSetEntry} (served : ids.Serves (.hashSetInsert hash)) (newId : UniqueId) :
    ∃ opened after,
      use.perform cryptoShorthash (.tryAddDelta ids (.hashSetInsert hash)) =
        (.answered true, some opened) ∧
      opened.perform cryptoShorthash (.revert 0 newId) = (.done, some after) ∧
      WithSlots cryptoShorthash free after := by
  obtain ⟨amount, agreement, accounts⟩ := table.accounts
  have slots := table.slots
  have one : slotsTaken (.hashSetInsert hash) = 1 := rfl
  obtain ⟨rewind, pushed, accepted, spec⟩ := push_accepts accounts (insert_affordable amount hash)
    (Or.inr (closed_free accounts)) (by omega) served
  obtain ⟨held, granted⟩ := spec.accounts
  have used := spec.freeSlots
  have open_one : held.stuck → False := by
    intro stuck
    have full := ((stuck_iff granted.agreed).mp stuck).1
    rw [holder_count_cons] at full
    have none_open : holderCount 0 = 0 := rfl
    split_ifs at full <;> omega
  rcases rewind_destroy_spec granted newId with ⟨_, stuck, _⟩ | ⟨after, destroyed, left⟩
  · exact (open_one stuck).elim
  · obtain ⟨released, closed⟩ := left.accounts
    have same := left.freeSlots
    refine ⟨{ object := pushed, held := [rewind] }, { object := after, held := [] }, ?_, ?_,
      rfl, ⟨amount, released, closed⟩, ?_⟩
    · simp only [SoleUse.perform, accepted, table.closed, List.nil_append]
    · simp only [SoleUse.perform, List.getElem?_cons_zero, destroyed, List.eraseIdx_cons_zero]
    · simp only
      omega

theorem insert_answer (table : WithSlots cryptoShorthash free use) {ids : CallIds}
    {hash : HashSetEntry} (served : ids.Serves (.hashSetInsert hash)) :
    (use.perform cryptoShorthash (.tryAddDelta ids (.hashSetInsert hash))).1 =
      .answered (decide (0 < free)) := by
  obtain ⟨amount, agreement, accounts⟩ := table.accounts
  have slots := table.slots
  have one : slotsTaken (.hashSetInsert hash) = 1 := rfl
  have outcome := push_outcome accounts (.hashSetInsert hash) ids
  simp only [SoleUse.perform]
  generalize use.object.tryAddDelta cryptoShorthash ids (.hashSetInsert hash) = result at outcome
  cases outcome with
  | accepted pushed =>
      have used := pushed.freeSlots
      have some_left : 0 < free := by omega
      simp only [some_left, decide_true]
  | rejected rejected reason =>
      have none_left : ¬ 0 < free := by
        rcases reason with unaffordable | ⟨_, full⟩
        · exact absurd (insert_affordable amount hash) unaffordable
        · omega
      simp only [none_left, decide_false]
  | faulted unimplemented => cases unimplemented
  | spins _ stuck => exact absurd stuck (closed_free accounts)
  | lost _ full => cases full
  | exhausted unserved => exact absurd served unserved

def exhaust (hash : HashSetEntry) : Nat → List SoleCall
  | 0 => [.tryAddDelta .first (.hashSetInsert hash)]
  | count + 1 =>
      .tryAddDelta .first (.hashSetInsert hash) :: .revert 0 CallIds.first.undo ::
        exhaust hash count

theorem exhaust_answer (hash : HashSetEntry) {count : Nat} :
    ∀ {free : Nat} {use : SoleUse}, WithSlots cryptoShorthash free use → count ≤ free →
      (observe (SoleUse.perform cryptoShorthash) (exhaust hash count) use).getLast? =
        some (.answered (decide (count < free))) := by
  induction count with
  | zero =>
      intro free use table _
      have answer := insert_answer table (first_serves (.hashSetInsert hash))
      have head : (observe (SoleUse.perform cryptoShorthash)
          [.tryAddDelta .first (.hashSetInsert hash)] use).head? = _ := observe_head _ [] use
      simp only [exhaust, observe] at head ⊢
      rw [← answer]
      generalize use.perform cryptoShorthash _ = result
      obtain ⟨shown, next⟩ := result
      cases next <;> rfl
  | succ count induction =>
      intro free use table enough
      obtain ⟨left, rfl⟩ := Nat.exists_eq_add_of_lt enough
      have more : WithSlots cryptoShorthash (count + left + 1) use := table
      obtain ⟨opened, after, accepted, reverted, next⟩ :=
        insert_revert_slots more (first_serves (.hashSetInsert hash)) CallIds.first.undo
      have last := induction next (by omega)
      have smaller : decide (count < count + left) = decide (count + 1 < count + left + 1) :=
        decide_eq_decide.mpr Nat.succ_lt_succ_iff.symm
      simp only [exhaust, observe, accepted, reverted]
      rw [← smaller, ← last]
      have nonempty :
          observe (SoleUse.perform cryptoShorthash) (exhaust hash count) after ≠ [] := by
        intro empty
        rw [empty] at last
        cases last
      rw [List.getLast?_cons_cons, List.getLast?_cons, List.getLast?_eq_some_getLast nonempty]
      rfl

theorem free_slots_told {left right : RevertableObject} {fewer more : Nat}
    (first : WithSlots cryptoShorthash fewer (.start left))
    (second : WithSlots cryptoShorthash more (.start right)) (less : fewer < more) :
    ¬ Indistinguishable cryptoShorthash left right := by
  intro same
  have hash : HashSetEntry := ⟨0, 0⟩
  have refused := exhaust_answer hash first (le_refl fewer)
  have accepted := exhaust_answer hash second less.le
  rw [same (exhaust hash fewer), accepted] at refused
  simp [less] at refused

theorem indistinguishable_symm {left right : RevertableObject}
    (same : Indistinguishable cryptoShorthash left right) :
    Indistinguishable cryptoShorthash right left :=
  fun calls => (same calls).symm

theorem withdrawal_affordable_iff (amount : UInt64) :
    Affordable { base := none, supply := amount } (live 0 0) 0 (.assetObjectAdd (-1)) ↔
      0 < amount.toNat := by
  have bounded := amount.toNat_lt
  have taken : (StorageDelta.assetObjectAdd (-1)).assetOut = 1 := by decide
  have given : (StorageDelta.assetObjectAdd (-1)).assetIn = 0 := by decide
  constructor
  · intro affordable
    have lower := affordable.assetLower
    simp only [taken, total_zero, live_none] at lower
    omega
  · intro positive
    refine ⟨⟨rfl, ?_, ?_⟩, ?_, ?_, ?_, ?_⟩
    · intro value _ type impossible
      cases impossible
    · intro value _ other member
      cases Multiset.notMem_zero _ member
    · intro setAdd impossible
      cases impossible
    · intro hash impossible
      cases impossible
    · simp only [taken, total_zero, live_none]
      omega
    · simp only [given, total_zero, live_none]
      omega

theorem withdrawal_answer (cryptoShorthash : CryptoShorthash) (capacity : UInt32)
    (amount : UInt64) :
    ((SoleUse.start (leftOver capacity amount)).perform cryptoShorthash
      (.tryAddDelta .first (.assetObjectAdd (-1)))).1 =
      .answered (decide (0 < amount.toNat)) := by
  have started := left_over_start cryptoShorthash capacity amount
  have outcome := push_outcome started.accounts (.assetObjectAdd (-1)) CallIds.first
  have affordable := withdrawal_affordable_iff amount
  simp only [SoleUse.perform, SoleUse.start]
  generalize (leftOver capacity amount).tryAddDelta cryptoShorthash _ _ = result at outcome
  cases outcome with
  | accepted pushed =>
      have positive := affordable.mp pushed.affordable
      simp only [positive, decide_true]
  | rejected rejected reason =>
      have zero : ¬ 0 < amount.toNat := by
        rcases reason with unaffordable | ⟨insertion, _⟩
        · exact fun positive => unaffordable (affordable.mpr positive)
        · cases insertion
      simp only [zero, decide_false]
  | faulted unimplemented => cases unimplemented
  | spins _ stuck => exact absurd stuck (closed_free started.accounts)
  | lost _ full => cases full
  | exhausted unserved => exact absurd (first_serves _) unserved

theorem amount_told {capacity other : UInt32} {amount : UInt64}
    (same : Indistinguishable cryptoShorthash (leftOver capacity amount) (leftOver other 0)) :
    amount = 0 := by
  have heads := congrArg List.head? (same [.tryAddDelta .first (.assetObjectAdd (-1))])
  rw [observe_head, observe_head, withdrawal_answer, withdrawal_answer] at heads
  have zero : (0 : UInt64).toNat = 0 := rfl
  simp only [zero, lt_irrefl, decide_false, Option.some.injEq, Shown.answered.injEq,
    decide_eq_false_iff_not] at heads
  apply UInt64.toNat_inj.mp
  omega

theorem left_over_indistinguishable_iff (cryptoShorthash : CryptoShorthash) (capacity : UInt32)
    (amount : UInt64) :
    Indistinguishable cryptoShorthash (leftOver capacity amount) .fresh ↔
      capacity = withExtraBuffer startHashSetSize ∧ amount = 0 := by
  constructor
  · intro same
    rw [fresh_left_over] at same
    refine ⟨?_, amount_told same⟩
    have first := left_over_slots cryptoShorthash capacity amount
    have second := left_over_slots cryptoShorthash (withExtraBuffer startHashSetSize) 0
    apply UInt32.toNat_inj.mp
    rcases Nat.lt_trichotomy capacity.toNat (withExtraBuffer startHashSetSize).toNat with
      less | equal | more
    · exact absurd same (free_slots_told first second less)
    · exact equal
    · exact absurd (indistinguishable_symm same) (free_slots_told second first more)
  · rintro ⟨rfl, rfl⟩ calls
    rfl

end Tell

/-- After a block that deletes it, an object is as new exactly when its table had
the size that a new object's has and its committed value was no asset with an
amount. -/
theorem deletion_resets_iff (cryptoShorthash : CryptoShorthash) (object : RevertableObject)
    (reachable : AtRoundStart cryptoShorthash object) (calls : List Call) (session : Session)
    (run : Run (Step cryptoShorthash) (.start object) calls session)
    (closed : session.held = 0) (last : StorageDelta.deleteLast ∈ session.committed)
    (after : RevertableObject) (returned : session.object.commitRound = .ok after) :
    Indistinguishable cryptoShorthash after .fresh ↔
      object.newHashes.capacity = withExtraBuffer startHashSetSize ∧
        assetAmount object.committedBase = 0 := by
  obtain ⟨opening, same, started⟩ := at_round_start reachable
  obtain ⟨agreement, accounts⟩ := run_kept started run
  rw [closed] at accounts
  rw [commit_round_left_over accounts last returned, run_capacity run, same]
  exact left_over_indistinguishable_iff cryptoShorthash _ _

theorem delete_run (cryptoShorthash : CryptoShorthash) (object : RevertableObject) :
    Run (Step cryptoShorthash) (.start object)
      [.push .first .deleteLast, .commit (.granted .detached .deleteLast)]
      { object := { object with deleteLastCommitted := true }
        held := 0
        committed := {.deleteLast} } := by
  have pushed : Step cryptoShorthash (.start object) (.push .first .deleteLast)
      { object := object, held := {.granted .detached .deleteLast}, committed := 0 } := rfl
  refine .cons pushed (.cons ?_ (.nil _))
  unfold Step Session.perform
  simp only [Multiset.mem_singleton, if_true, Multiset.erase_singleton]
  rfl

/-- A committed set of the first limit is deleted without a trace, entries and all. -/
theorem deletion_resets_set : ∃ session after,
    Run (Step fun _ => 0)
      (.start (.onBase (some
        { body := .hashSet { hashes := [⟨9, 3⟩, ⟨4, 1⟩], maxSize := 64 }, escrowedFee := 0 })))
      [.push .first .deleteLast, .commit (.granted .detached .deleteLast)] session ∧
    session.object.commitRound = .ok after ∧ after.getCommittedObject = none ∧
    Indistinguishable (fun _ => 0) after .fresh := by
  let start : RevertableObject := .onBase (some
    { body := .hashSet { hashes := [⟨9, 3⟩, ⟨4, 1⟩], maxSize := 64 }, escrowedFee := 0 })
  exact ⟨_, leftOver (withExtraBuffer startHashSetSize) 0, delete_run _ start, rfl, rfl,
    (deletion_resets_iff (fun _ => 0) start (.constructed _) _ _ (delete_run _ start) rfl
      (Multiset.mem_singleton_self _) (leftOver (withExtraBuffer startHashSetSize) 0) rfl).mpr
        ⟨rfl, rfl⟩⟩

/-- Five units of an asset are deleted; the next asset of that key starts with
them. -/
theorem deleted_amount_remains : ∃ session after,
    Run (Step fun _ => 0)
      (.start (.onBase (some { body := .asset { amount := 5 }, escrowedFee := 0 })))
      [.push .first .deleteLast, .commit (.granted .detached .deleteLast)] session ∧
    session.held = 0 ∧ .deleteLast ∈ session.committed ∧
    session.object.commitRound = .ok after ∧ after.getCommittedObject = none ∧
    ¬ Indistinguishable (fun _ => 0) after .fresh := by
  refine ⟨_, leftOver 0 5, delete_run _ _, rfl, Multiset.mem_singleton_self _, rfl, rfl, ?_⟩
  rw [left_over_indistinguishable_iff]
  rintro ⟨_, impossible⟩
  cases impossible

end Scs
