import Scs.StateDb.FailedTransaction

/-!
# When a failed transaction can be told from none

An observer who pushes and reverts one insertion again and again uses up the
slots that are left. A table with fewer of them refuses first.
-/

namespace Scs

set_option autoImplicit false

open Ledger Lockstep

section Observer

variable {cryptoShorthash : CryptoShorthash}

theorem equal_shown {left right : World} (equal : ObservationallyEqual cryptoShorthash left right)
    (ids : CallIds) (operation : Operation) :
    (left.perform cryptoShorthash (ids, operation)).1 =
      (right.perform cryptoShorthash (ids, operation)).1 := by
  have same := equal [(ids, operation)] [(ids, operation)] rfl
  have heads := congrArg List.head? same
  rw [observe_head, observe_head] at heads
  exact Option.some_inj.mp heads

theorem equal_next {left right leftNext rightNext : World}
    (equal : ObservationallyEqual cryptoShorthash left right) {ids : CallIds}
    {operation : Operation}
    (first : (left.perform cryptoShorthash (ids, operation)).2 = some leftNext)
    (second : (right.perform cryptoShorthash (ids, operation)).2 = some rightNext) :
    ObservationallyEqual cryptoShorthash leftNext rightNext := by
  intro operations others same
  have longer := equal ((ids, operation) :: operations) ((ids, operation) :: others)
    (congrArg (List.cons (onThread (ids, operation))) same)
  have tails := congrArg List.tail longer
  rw [observe_tail first, observe_tail second] at tails
  exact tails

theorem insert_and_revert {world : World} {key : AddressAndKey} {hash : HashSetEntry}
    {opening : Opening} {committed : Multiset StorageDelta}
    (accounts : ∃ agreement, Accounts cryptoShorthash opening ↑(Rewinds.on key world.held)
      committed agreement (world.objects key))
    (affordable : Affordable opening (live ↑(Rewinds.on key world.held) committed) committed
      (.hashSetInsert hash))
    (room : ∀ rewind, ¬ Full committed (rewind ::ₘ ↑(Rewinds.on key world.held)))
    (free : 0 < (world.objects key).newHashes.freeSlots) :
    ∃ pushed after,
      world.perform cryptoShorthash (.first, .push key (.hashSetInsert hash)) =
        (.accepted, some pushed) ∧
      pushed.perform cryptoShorthash (.first, .revert 0) = (.done, some after) ∧
      after.held = world.held ∧
      (∃ agreement, Accounts cryptoShorthash opening ↑(Rewinds.on key world.held) committed
        agreement (after.objects key)) ∧
      (after.objects key).newHashes.freeSlots + 1 = (world.objects key).newHashes.freeSlots := by
  obtain ⟨agreement, accounts⟩ := accounts
  have unstuck : ¬ agreement.stuck := by
    rw [stuck_iff_full accounts]
    intro full
    exact room (.granted .detached .deleteLast) (full_mono (Multiset.le_cons_self _ _) full)
  obtain ⟨rewind, next, returned, pushed⟩ :=
    push_accepts accounts affordable (Or.inr unstuck) free (first_serves _)
  obtain ⟨granted, kept⟩ := pushed.accounts
  obtain ⟨last, destroyed⟩ := (destroy_returns_iff kept CallIds.first.undo).mpr
    fun _ => room rewind
  rcases rewind_destroy_spec kept CallIds.first.undo with ⟨_, _, spins⟩ | ⟨result, again, spec⟩
  · rw [destroyed] at spins
    cases spins
  · rw [destroyed] at again
    cases again
    refine ⟨{ objects := Function.update world.objects key next,
              held := (key, rewind) :: world.held },
      { objects := Function.update (Function.update world.objects key next) key last,
        held := world.held }, ?_, ?_, rfl, ?_, ?_⟩
    · simp only [World.perform, returned]
    · simp only [World.perform, List.getElem?_cons_zero, Function.update_self, destroyed,
        List.eraseIdx_zero, List.tail_cons]
    · simp only [Function.update_self]
      exact spec.accounts
    · have taken := pushed.freeSlots
      have restored := spec.freeSlots
      simp only [Function.update_self]
      simp only [slotsTaken, StorageDelta.inserted?, Option.toList_some, List.length_singleton]
        at taken
      omega

theorem slots_told_apart {left right : World} {key : AddressAndKey} {hash : HashSetEntry}
    {opening : Opening} {committed : Multiset StorageDelta} (held : left.held = right.held)
    (leftAccounts : ∃ agreement, Accounts cryptoShorthash opening ↑(Rewinds.on key left.held)
      committed agreement (left.objects key))
    (rightAccounts : ∃ agreement, Accounts cryptoShorthash opening ↑(Rewinds.on key right.held)
      committed agreement (right.objects key))
    (affordable : Affordable opening (live ↑(Rewinds.on key left.held) committed) committed
      (.hashSetInsert hash))
    (room : ∀ rewind, ¬ Full committed (rewind ::ₘ ↑(Rewinds.on key left.held)))
    (fewer : (right.objects key).newHashes.freeSlots < (left.objects key).newHashes.freeSlots) :
    ¬ ObservationallyEqual cryptoShorthash left right := by
  intro equal
  generalize slots : (right.objects key).newHashes.freeSlots = count at fewer
  induction count generalizing left right with
  | zero =>
      obtain ⟨pushed, _, accepted, _⟩ := insert_and_revert leftAccounts affordable room fewer
      have shown := equal_shown equal .first (.push key (.hashSetInsert hash))
      obtain ⟨agreement, accounts⟩ := rightAccounts
      have outcome := push_outcome accounts (.hashSetInsert hash) .first
      rw [accepted] at shown
      simp only [World.perform] at shown
      generalize (right.objects key).tryAddDelta cryptoShorthash .first (.hashSetInsert hash) =
        answer at outcome shown
      cases outcome with
      | accepted pushed =>
          have taken := pushed.freeSlots
          simp only [slotsTaken, StorageDelta.inserted?, Option.toList_some,
            List.length_singleton] at taken
          omega
      | rejected rejected reason => cases shown
      | faulted unimplemented => cases shown
      | spins classed stuck => cases shown
      | lost unaffordable full => cases shown
      | exhausted unserved => cases shown
  | succ count induction =>
      have positive : 0 < (left.objects key).newHashes.freeSlots := by omega
      have still : 0 < (right.objects key).newHashes.freeSlots := by omega
      obtain ⟨first, leftAfter, leftPush, leftRevert, leftHeld, leftKept, leftSlots⟩ :=
        insert_and_revert leftAccounts affordable room positive
      obtain ⟨second, rightAfter, rightPush, rightRevert, rightHeld, rightKept, rightSlots⟩ :=
        insert_and_revert rightAccounts (held ▸ affordable) (held ▸ room) still
      have pushedEqual : ObservationallyEqual cryptoShorthash first second :=
        equal_next equal (congrArg Prod.snd leftPush) (congrArg Prod.snd rightPush)
      have afterEqual : ObservationallyEqual cryptoShorthash leftAfter rightAfter :=
        equal_next pushedEqual (congrArg Prod.snd leftRevert) (congrArg Prod.snd rightRevert)
      apply induction _ _ _ _ _ afterEqual
      · omega
      · omega
      · rw [leftHeld, rightHeld, held]
      · rw [leftHeld]
        exact leftKept
      · rw [rightHeld]
        exact rightKept
      · rw [leftHeld]
        exact affordable
      · rw [leftHeld]
        exact room

end Observer

/-! ## The condition on the pushed deltas -/

theorem slots_on_zero (key : AddressAndKey)
    (calls : List (CallIds × AddressAndKey × StorageDelta)) :
    slotsOn key calls = 0 ↔
      ∀ call ∈ calls, call.2.1 = key → call.2.2.inserted? = none := by
  have taken : ∀ delta : StorageDelta, slotsTaken delta = 0 ↔ delta.inserted? = none := by
    intro delta
    rw [slotsTaken, List.length_eq_zero_iff, Option.toList_eq_nil_iff]
  induction calls with
  | nil => exact ⟨fun _ _ impossible => (by cases impossible), fun _ => rfl⟩
  | cons call rest induction =>
      obtain ⟨ids, other, delta⟩ := call
      rw [slotsOn, Nat.add_eq_zero_iff, List.forall_mem_cons]
      apply and_congr _ induction
      by_cases same : other = key
      · rw [if_pos same, taken]
        exact ⟨fun none_inserted _ => none_inserted, fun given => given same⟩
      · rw [if_neg same]
        exact ⟨fun _ here => absurd here same, fun _ => rfl⟩

theorem inserted_self {delta : StorageDelta} {hash : HashSetEntry}
    (inserted : delta.inserted? = some hash) : delta = .hashSetInsert hash := by
  cases delta with
  | hashSetInsert other => exact congrArg StorageDelta.hashSetInsert (Option.some_inj.mp inserted)
  | _ => cases inserted

theorem open_holders_map (key : AddressAndKey) (rewinds : Rewinds) :
    openHolders key rewinds =
      (rewinds.map fun entry => (entry.1, entry.2.delta)).countP
        fun entry => entry.1 = key ∧ entry.2.class?.isSome = true := by
  induction rewinds with
  | nil => rfl
  | cons entry rest induction =>
      obtain ⟨other, rewind⟩ := entry
      rw [List.map_cons, List.countP_cons, ← induction]
      by_cases same : other = key
      · subst same
        simp only [openHolders, Rewinds.on_self, List.countP_cons, DeltaRewind.holds, true_and]
        congr 1
      · rw [openHolders, Rewinds.on_other key (Ne.symm same)]
        simp [openHolders, same]

theorem holders_on_map (key : AddressAndKey)
    (calls : List (CallIds × AddressAndKey × StorageDelta)) :
    holdersOn key calls =
      (calls.map Prod.snd).countP
        fun entry => entry.1 = key ∧ entry.2.class?.isSome = true := by
  rw [List.countP_map]
  rfl

theorem open_holders_append (key : AddressAndKey) (first second : Rewinds) :
    openHolders key (first ++ second) = openHolders key first + openHolders key second := by
  rw [openHolders, Rewinds.on_append, List.countP_append]
  rfl

/-! ## Failed transactions -/

section Failed

variable {cryptoShorthash : CryptoShorthash}
  {pushed : List (CallIds × AddressAndKey × StorageDelta)} {granted : Rewinds}
  {undos : List (UniqueId × AddressAndKey × DeltaRewind)}

section Calls

variable (deltas : granted.map (fun entry => (entry.1, entry.2.delta)) = pushed.map Prod.snd)
  (listed : (undos.map Prod.snd).Perm granted)

include deltas listed

theorem undo_call {undo : UniqueId × AddressAndKey × DeltaRewind} (member : undo ∈ undos) :
    ∃ call ∈ pushed, call.2.1 = undo.2.1 ∧ call.2.2 = undo.2.2.delta := by
  have inside : undo.2 ∈ granted := listed.subset (List.mem_map_of_mem member)
  have mapped : (undo.2.1, undo.2.2.delta) ∈ pushed.map Prod.snd := by
    rw [← deltas]
    exact List.mem_map_of_mem inside
  obtain ⟨call, there, same⟩ := List.mem_map.mp mapped
  exact ⟨call, there, congrArg Prod.fst same, congrArg Prod.snd same⟩

theorem call_undo {call : CallIds × AddressAndKey × StorageDelta} (member : call ∈ pushed) :
    ∃ undo ∈ undos, undo.2.1 = call.2.1 ∧ undo.2.2.delta = call.2.2 := by
  have mapped : call.2 ∈ granted.map fun entry => (entry.1, entry.2.delta) := by
    rw [deltas]
    exact List.mem_map_of_mem member
  obtain ⟨entry, inside, same⟩ := List.mem_map.mp mapped
  obtain ⟨undo, there, rfl⟩ := List.mem_map.mp (listed.symm.subset inside)
  exact ⟨undo, there, congrArg Prod.fst same, congrArg Prod.snd same⟩

theorem undo_count (key : AddressAndKey) (held : Rewinds) :
    holderCount ↑(Rewinds.on key (undos.map Prod.snd ++ held)) =
      holdersOn key pushed + openHolders key held := by
  have reordered : openHolders key (undos.map Prod.snd) = openHolders key granted := by
    rw [open_holders_map, open_holders_map]
    exact (listed.map _).countP_eq _
  have all : holderCount ↑(Rewinds.on key (undos.map Prod.snd ++ held)) =
      openHolders key (undos.map Prod.snd ++ held) := Multiset.coe_countP _ _
  rw [all, open_holders_append, reordered, open_holders_map key granted, deltas,
    holders_on_map]

theorem undo_taken {undo : UniqueId × AddressAndKey × DeltaRewind} (member : undo ∈ undos)
    (none_taken : slotsOn undo.2.1 pushed = 0) : undo.2.2.delta.inserted? = none := by
  obtain ⟨call, there, sameKey, same⟩ := undo_call deltas listed member
  rw [← same]
  exact (slots_on_zero undo.2.1 pushed).mp none_taken call there sameKey

/-- Off a full count on every key, in terms of the words before the push. -/
theorem off_full_iff {openings : AddressAndKey → Opening}
    {committed : AddressAndKey → Multiset StorageDelta} {world : World}
    (kept : WorldKept cryptoShorthash openings committed world) :
    (∀ undo ∈ undos, undo.2.2.holds = true → ¬ Full (committed undo.2.1)
      ↑(Rewinds.on undo.2.1 (undos.map Prod.snd ++ world.held))) ↔
    ∀ call ∈ pushed, call.2.2.class?.isSome = true →
      isFinalized (world.objects call.2.1).baseObj.tag = true ∨
        holdersOn call.2.1 pushed + openHolders call.2.1 world.held < 256 := by
  have off : ∀ key, ¬ Full (committed key)
      ↑(Rewinds.on key (undos.map Prod.snd ++ world.held)) ↔
      isFinalized (world.objects key).baseObj.tag = true ∨
        holdersOn key pushed + openHolders key world.held < 256 := by
    intro key
    obtain ⟨agreement, accounts⟩ := kept key
    rw [finalized_iff accounts, Full, undo_count deltas listed, not_and_or, not_not, not_le,
      or_comm]
  constructor
  · intro given call member classed
    obtain ⟨undo, there, sameKey, same⟩ := call_undo deltas listed member
    rw [← off, ← sameKey]
    exact given undo there (by rw [DeltaRewind.holds, same]; exact classed)
  · intro given undo member holds
    obtain ⟨call, there, sameKey, same⟩ := undo_call deltas listed member
    rw [← sameKey, off]
    exact given call there (by rw [same]; exact holds)

end Calls

/-- An insertion that is undone off a full count has still taken a slot. -/
theorem insertion_seen {openings : AddressAndKey → Opening}
    {committed : AddressAndKey → Multiset StorageDelta} {world : World} {held : Rewinds}
    {consumed : AddressAndKey → Nat} {objects after : Objects}
    (pending : Pending cryptoShorthash openings committed world.held held consumed world.objects
      objects)
    {key : AddressAndKey} {rewind : DeltaRewind} (member : (key, rewind) ∈ held)
    {hash : HashSetEntry} (insertion : rewind.delta = .hashSetInsert hash)
    (off : ¬ Full (committed key) ↑(Rewinds.on key (held ++ world.held)))
    (done : Pending cryptoShorthash openings committed world.held [] consumed world.objects
      after)
    (taken : 0 < consumed key) :
    ¬ ObservationallyEqual cryptoShorthash world { world with objects := after } := by
  have own : rewind ∈ Rewinds.on key held :=
    List.mem_filterMap.mpr ⟨(key, rewind), member, if_pos rfl⟩
  have holds : rewind.holds = true := by
    rw [DeltaRewind.holds, insertion]
    rfl
  have smaller : rewind ::ₘ (Rewinds.on key world.held : Multiset DeltaRewind) ≤
      ↑(Rewinds.on key (held ++ world.held)) := by
    rw [Rewinds.on_append, ← Multiset.coe_add, ← Multiset.singleton_add]
    exact Multiset.add_le_add_right (Multiset.singleton_le.mpr own)
  obtain ⟨agreement, accounts⟩ := (pending key).now
  rw [Multiset.coe_add, ← Rewinds.on_append] at accounts
  have affordable : Affordable (openings key)
      (live ↑(Rewinds.on key world.held) (committed key)) (committed key)
      (.hashSetInsert hash) := by
    apply affordable_of_solvent_cons
    rw [← insertion, ← live_cons]
    exact solvent_mono accounts.solvent (live_mono smaller) (le_refl _)
  have room : ∀ other, ¬ Full (committed key) (other ::ₘ ↑(Rewinds.on key world.held)) :=
    fun other full => off (full_mono smaller (full_cons holds other full))
  have start := (done key).start
  have now := (done key).now
  have slots := (done key).slots
  rw [Rewinds.on_nil, Multiset.coe_nil, zero_add] at now
  have fewer : (after key).newHashes.freeSlots < (world.objects key).newHashes.freeSlots := by
    omega
  have sameHeld : world.held = ({ world with objects := after } : World).held := rfl
  exact slots_told_apart sameHeld start now affordable room fewer

/-- An accepted insertion is seen after the transaction has failed. -/
theorem insert_leaves_trace {world : World} (reachable : ReachableWorld cryptoShorthash world)
    {unpushed : List (CallIds × AddressAndKey × StorageDelta)} {accepted : Bool}
    {allocated count : ℕ} {objects after : Objects}
    (returned : pushAll cryptoShorthash allocated (pushed ++ unpushed) world.objects =
      .ok (accepted, granted, count, objects))
    (whole : granted.length = pushed.length) (listed : (undos.map Prod.snd).Perm granted)
    (destroyed : destroyAll cryptoShorthash undos objects = .ok after)
    {call : CallIds × AddressAndKey × StorageDelta} (member : call ∈ pushed)
    {hash : HashSetEntry} (inserted : call.2.2.inserted? = some hash) :
    ¬ ObservationallyEqual cryptoShorthash world { world with objects := after } := by
  obtain ⟨openings, committed, kept⟩ := reachable_kept reachable
  obtain ⟨deltas, _, more, perm, ahead⟩ := pending_push_all (pending_start kept) returned whole
  rw [List.append_nil] at perm
  have pending := pending_perm (listed.trans perm.symm) ahead
  simp only [zero_add] at pending
  have taken := fun undo (member : undo ∈ undos) => undo_taken deltas listed member
  have off := (destroy_all_returns_iff pending taken).mp ⟨after, destroyed⟩
  obtain ⟨undo, there, sameKey, same⟩ := call_undo deltas listed member
  have insertion := same.trans (inserted_self inserted)
  have holds : undo.2.2.holds = true := by
    rw [DeltaRewind.holds, insertion]
    rfl
  have slots : slotsOn undo.2.1 pushed ≠ 0 := by
    intro none_taken
    have skipped := (slots_on_zero undo.2.1 pushed).mp none_taken call member sameKey.symm
    rw [inserted] at skipped
    cases skipped
  exact insertion_seen pending (List.mem_map_of_mem there) insertion (off undo there holds)
    (pending_destroy_all pending taken destroyed) (Nat.pos_of_ne_zero slots)

/-- A failed transaction is undone without a trace in the objects exactly when none of its
accepted deltas is an insertion and none of its keys has 256 holders on an undecided
value. Its thread keeps the indices either way: one for each accepted insertion, and
one for a refused insertion that got as far as the table. -/
theorem failed_transaction_traceless {world : World}
    (reachable : ReachableWorld cryptoShorthash world)
    {unpushed : List (CallIds × AddressAndKey × StorageDelta)} {accepted : Bool}
    {allocated count : ℕ} {objects : Objects}
    (returned : pushAll cryptoShorthash allocated (pushed ++ unpushed) world.objects =
      .ok (accepted, granted, count, objects))
    (whole : granted.length = pushed.length) (listed : (undos.map Prod.snd).Perm granted) :
    ((∃ after, destroyAll cryptoShorthash undos objects = .ok after ∧
      ObservationallyEqual cryptoShorthash world { world with objects := after }) ↔
    (∀ call ∈ pushed, call.2.2.inserted? = none) ∧
      ∀ call ∈ pushed, call.2.2.class?.isSome = true →
        isFinalized (world.objects call.2.1).baseObj.tag = true ∨
          holdersOn call.2.1 pushed + openHolders call.2.1 world.held < 256) ∧
    count = allocated + insertionsIn pushed + refusedIndex cryptoShorthash unpushed objects := by
  obtain ⟨openings, committed, kept⟩ := reachable_kept reachable
  obtain ⟨deltas, indices, more, perm, ahead⟩ :=
    pending_push_all (pending_start kept) returned whole
  rw [List.append_nil] at perm
  have pending := pending_perm (listed.trans perm.symm) ahead
  simp only [zero_add] at pending
  have taken := fun undo (member : undo ∈ undos) => undo_taken deltas listed member
  have returns := destroy_all_returns_iff pending taken
  rw [← off_full_iff deltas listed kept]
  refine ⟨⟨?_, ?_⟩, indices⟩
  · intro ⟨after, destroyed, equal⟩
    refine ⟨?_, returns.mp ⟨after, destroyed⟩⟩
    intro call member
    cases inserted : call.2.2.inserted? with
    | none => rfl
    | some hash =>
        have seen := insert_leaves_trace reachable returned whole listed destroyed member inserted
        exact absurd equal seen
  · intro ⟨no_insert, off⟩
    obtain ⟨after, destroyed⟩ := returns.mpr off
    refine ⟨after, destroyed, alike_observationally_equal cryptoShorthash ⟨?_, rfl⟩⟩
    intro key
    have done := pending_destroy_all pending taken destroyed key
    have none_taken : slotsOn key pushed = 0 :=
      (slots_on_zero key pushed).mpr fun call member _ => no_insert call member
    rw [none_taken] at done
    exact ahead_done done

end Failed

def emptyWorld : World where
  objects := fun _ => .fresh
  held := []

theorem empty_world_reachable (cryptoShorthash : CryptoShorthash) :
    ReachableWorld cryptoShorthash emptyWorld :=
  .constructed fun _ => none

def withdrawFour : StorageDelta := makeNonnegativeInt64SetAdd 5 (-4)

/-- The second withdrawal is an overdraft. -/
theorem failed_transaction_traceless_overdrawn :
    ∃ granted count objects after,
      pushAll (fun _ => 0) 0 [(.first, 7, withdrawFour), (.first, 7, withdrawFour)]
        emptyWorld.objects = .ok (false, granted, count, objects) ∧
      destroyAll (fun _ => 0) (granted.map fun entry => (CallIds.first.undo, entry)) objects =
        .ok after ∧
      ObservationallyEqual (fun _ => 0) emptyWorld { emptyWorld with objects := after } := by
  have first : ∃ rewind next, RevertableObject.fresh.tryAddDelta (fun _ => 0)
      (CallIds.first.holding 0) withdrawFour = .ok (some rewind, next) ∧
      ∃ last, next.tryAddDelta (fun _ => 0) (CallIds.first.holding 0) withdrawFour =
        .ok (none, last) := ⟨_, _, rfl, _, rfl⟩
  obtain ⟨rewind, next, granted, last, refused⟩ := first
  have unmoved : RevertableObject.fresh.allocatedAfter (fun _ => 0) (CallIds.first.holding 0)
      withdrawFour = 0 := accepted_allocated granted
  obtain ⟨count, returned⟩ : ∃ count, pushAll (fun _ => 0) 0
      ([(.first, 7, withdrawFour)] ++ [(.first, 7, withdrawFour)]) emptyWorld.objects =
        .ok (false, [(7, rewind)], count,
          Function.update (Function.update emptyWorld.objects 7 next) 7 last) := by
    simp only [List.singleton_append, pushAll, emptyWorld, granted, unmoved, bind, Except.bind,
      Function.update_self, refused]
    exact ⟨_, rfl⟩
  have listed : (([(CallIds.first.undo, 7, rewind)] :
      List (UniqueId × AddressAndKey × DeltaRewind)).map Prod.snd).Perm [(7, rewind)] :=
    List.Perm.refl _
  obtain ⟨after, destroyed, equal⟩ := (failed_transaction_traceless
    (empty_world_reachable fun _ => 0) returned rfl listed).1.mpr
    ⟨by simp [withdrawFour, makeNonnegativeInt64SetAdd, StorageDelta.inserted?],
      by simp [holdersOn, openHolders, emptyWorld, withdrawFour, makeNonnegativeInt64SetAdd,
        StorageDelta.class?]⟩
  exact ⟨[(7, rewind)], count, _, after, returned, destroyed, equal⟩

/-- One insertion that is pushed and given up again: a slot is gone, and an index. -/
theorem failed_insert_leaves_trace :
    ∃ granted objects after,
      pushAll (fun _ => 0) 0 [(.first, 7, .hashSetInsert { hash := 3, index := 1 })]
        emptyWorld.objects = .ok (true, granted, 1, objects) ∧
      destroyAll (fun _ => 0) (granted.map fun entry => (CallIds.first.undo, entry)) objects =
        .ok after ∧
      ¬ ObservationallyEqual (fun _ => 0) emptyWorld { emptyWorld with objects := after } := by
  have first : ∃ rewind next, RevertableObject.fresh.tryAddDelta (fun _ => 0)
      (CallIds.first.holding 0) (.hashSetInsert { hash := 3, index := 1 }) =
        .ok (some rewind, next) ∧
      ∃ last, rewind.destroy (fun _ => 0) CallIds.first.undo next = .ok last :=
    ⟨_, _, rfl, _, rfl⟩
  obtain ⟨rewind, next, granted, last, destroyed⟩ := first
  have taken : RevertableObject.fresh.allocatedAfter (fun _ => 0) (CallIds.first.holding 0)
      (.hashSetInsert { hash := 3, index := 1 }) = 1 := accepted_allocated granted
  have returned : pushAll (fun _ => 0) 0
      ([(.first, 7, .hashSetInsert { hash := 3, index := 1 })] ++ []) emptyWorld.objects =
        .ok (true, [(7, rewind)], 1, Function.update emptyWorld.objects 7 next) := by
    simp only [List.append_nil, pushAll, emptyWorld, granted, taken, bind, Except.bind]
  have undone : destroyAll (fun _ => 0) [(CallIds.first.undo, 7, rewind)]
      (Function.update emptyWorld.objects 7 next) =
        .ok (Function.update (Function.update emptyWorld.objects 7 next) 7 last) := by
    simp only [destroyAll, Function.update_self, destroyed, bind, Except.bind]
  have listed : (([(CallIds.first.undo, 7, rewind)] :
      List (UniqueId × AddressAndKey × DeltaRewind)).map Prod.snd).Perm [(7, rewind)] :=
    List.Perm.refl _
  exact ⟨[(7, rewind)], _, _, returned, undone,
    insert_leaves_trace (empty_world_reachable fun _ => 0) returned rfl listed undone
      (List.mem_singleton_self _) rfl⟩

end Scs
