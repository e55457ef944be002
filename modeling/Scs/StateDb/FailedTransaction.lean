import Scs.Object.IndexUse
import Scs.StorageProxy.TransactionRewind

/-!
# What a failed transaction leaves behind

A transaction pushes its deltas key by key and destroys its rewinds when it
fails. Every accumulator comes back exactly; a slot that an insertion took does
not, and at 256 open rewinds on an undecided value the destructor never returns.
-/

namespace Scs

set_option autoImplicit false

open Ledger Lockstep

variable (cryptoShorthash : CryptoShorthash)

def openHolders (key : AddressAndKey) (rewinds : Rewinds) : Nat :=
  (Rewinds.on key rewinds).countP fun rewind => rewind.holds = true

/-! ## One object, ahead of where it was -/

/-- `after` holds `extra` on top of what `before` holds. `consumed` insertions
were accepted in between, whether they are still open or not. -/
structure Ahead (opening : Opening) (committed : Multiset StorageDelta)
    (held extra : Multiset DeltaRewind) (consumed : Nat) (before after : RevertableObject) :
    Prop where
  start : ∃ agreement, Accounts cryptoShorthash opening held committed agreement before
  now : ∃ agreement, Accounts cryptoShorthash opening (extra + held) committed agreement after
  word : Decided committed → after.baseObj = before.baseObj
  slots : after.newHashes.freeSlots + consumed = before.newHashes.freeSlots
  table : consumed = 0 → after.newHashes = before.newHashes

section OneObject

variable {cryptoShorthash} {opening : Opening} {committed : Multiset StorageDelta}
  {held extra : Multiset DeltaRewind} {consumed : Nat} {before after : RevertableObject}

theorem ahead_push
    (ahead : Ahead cryptoShorthash opening committed held extra consumed before after)
    {ids : CallIds} {delta : StorageDelta} {rewind : DeltaRewind} {next : RevertableObject}
    (returned : after.tryAddDelta cryptoShorthash ids delta = .ok (some rewind, next)) :
    rewind.delta = delta ∧
      Ahead cryptoShorthash opening committed held (rewind ::ₘ extra)
        (consumed + slotsTaken delta) before next := by
  obtain ⟨agreement, accounts⟩ := ahead.now
  have outcome := push_outcome accounts delta ids
  rw [returned] at outcome
  cases outcome with
  | accepted pushed =>
      refine ⟨pushed.own, ahead.start, ?_, ?_, ?_, ?_⟩
      · rw [Multiset.cons_add]
        exact pushed.accounts
      · intro decided
        exact (pushed.word decided).trans (ahead.word decided)
      · have slots := ahead.slots
        have taken := pushed.freeSlots
        omega
      · intro none_consumed
        have no_insert : delta.inserted? = none := by
          cases inserted : delta.inserted? with
          | none => rfl
          | some hash =>
              simp only [slotsTaken, inserted, Option.toList_some, List.length_singleton]
                at none_consumed
              omega
        exact (pushed.table no_insert).trans (ahead.table (by omega))

theorem ahead_reject (ahead : Ahead cryptoShorthash opening committed held extra consumed before
      after) {ids : CallIds} {delta : StorageDelta} {next : RevertableObject}
    (returned : after.tryAddDelta cryptoShorthash ids delta = .ok (none, next)) :
    Ahead cryptoShorthash opening committed held extra consumed before next := by
  obtain ⟨agreement, accounts⟩ := ahead.now
  have outcome := push_outcome accounts delta ids
  rw [returned] at outcome
  cases outcome with
  | rejected rejected reason =>
      have table : next.newHashes = after.newHashes := by rw [rejected.unchanged]
      refine ⟨ahead.start, ⟨agreement, rejected.accounts⟩, ?_, ?_, ?_⟩
      · intro decided
        exact (rejected.word decided).trans (ahead.word decided)
      · rw [table]
        exact ahead.slots
      · intro none_consumed
        exact table.trans (ahead.table none_consumed)

theorem ahead_destroy {rewind : DeltaRewind} (ahead : Ahead cryptoShorthash opening committed held
      (rewind ::ₘ extra) consumed before after)
    (taken : consumed = 0 → rewind.delta.inserted? = none) {newId : UniqueId}
    {next : RevertableObject}
    (returned : rewind.destroy cryptoShorthash newId after = .ok next) :
    Ahead cryptoShorthash opening committed held extra consumed before next := by
  obtain ⟨agreement, accounts⟩ := ahead.now
  rw [Multiset.cons_add] at accounts
  rcases rewind_destroy_spec accounts newId with ⟨_, _, spins⟩ | ⟨result, destroyed, spec⟩
  · rw [returned] at spins
    cases spins
  · rw [returned] at destroyed
    cases destroyed
    refine ⟨ahead.start, spec.accounts, ?_, ?_, ?_⟩
    · intro decided
      exact (spec.word decided).trans (ahead.word decided)
    · rw [spec.freeSlots]
      exact ahead.slots
    · intro none_consumed
      exact (spec.table (taken none_consumed)).trans (ahead.table none_consumed)

/-- The finalized bit says whether a committed delta has decided the value. -/
theorem finalized_iff {agreement : Agreement} {object : RevertableObject}
    (accounts : Accounts cryptoShorthash opening held committed agreement object) :
    isFinalized object.baseObj.tag = true ↔ Decided committed := by
  rw [is_finalized_iff]
  have word := accounts.represents.word
  have backed := accounts.agreed.backed
  constructor
  · intro odd
    cases agreement with
    | undecided =>
        simp only at word
        omega
    | tentative value holders =>
        simp only at word
        omega
    | decided value =>
        obtain ⟨delta, member, classed⟩ := backed
        refine ⟨delta, member, ?_⟩
        rw [classed]
        exact Option.some_ne_none value
  · intro decided
    obtain ⟨value, same⟩ := decided_agreement accounts.agreed decided
    subst same
    exact word

/-- The low word is a function of the ledger as long as no value is decided. -/
theorem undecided_words {left right : Agreement} {first second : RevertableObject}
    (undecided : ¬ Decided committed)
    (leftAccounts : Accounts cryptoShorthash opening held committed left first)
    (rightAccounts : Accounts cryptoShorthash opening held committed right second) :
    AlikeBase first.baseObj second.baseObj := by
  have same : left = right := by
    have values : left.value? = right.value? := by
      apply Option.ext
      intro value
      constructor
      · intro valued
        obtain ⟨delta, member, classed⟩ := value_backed leftAccounts valued
        exact rightAccounts.agreed.value delta member value classed
      · intro valued
        obtain ⟨delta, member, classed⟩ := value_backed rightAccounts valued
        exact leftAccounts.agreed.value delta member value classed
    have leftBacked := leftAccounts.agreed.backed
    have rightBacked := rightAccounts.agreed.backed
    have never : ∀ value, ¬ ∃ delta ∈ committed, delta.class? = some value := by
      rintro value ⟨delta, member, classed⟩
      exact undecided ⟨delta, member, by rw [classed]; exact Option.some_ne_none value⟩
    cases left with
    | decided value => exact absurd leftBacked (never value)
    | undecided =>
        cases right with
        | undecided => rfl
        | tentative value holders => cases values
        | decided value => exact absurd rightBacked (never value)
    | tentative value holders =>
        cases right with
        | undecided => cases values
        | decided value => exact absurd rightBacked (never value)
        | tentative other others =>
            cases values
            rw [leftBacked.1, rightBacked.1]
  subst same
  refine ⟨?_, leftAccounts.represents.obj.trans rightAccounts.represents.obj.symm,
    leftAccounts.represents.requiredType.trans rightAccounts.represents.requiredType.symm⟩
  have leftWord := leftAccounts.represents.word
  have rightWord := rightAccounts.represents.word
  cases left with
  | undecided => exact leftWord.trans rightWord.symm
  | tentative value holders => exact leftWord.2.2.trans rightWord.2.2.symm
  | decided value =>
      obtain ⟨delta, member, classed⟩ := leftAccounts.agreed.backed
      exact absurd ⟨delta, member, by rw [classed]; exact Option.some_ne_none value⟩ undecided

/-- A refused push leaves another swap id at most. -/
theorem rejected_alike {ids : CallIds} {delta : StorageDelta} {next : RevertableObject}
    {agreement : Agreement}
    (accounts : Accounts cryptoShorthash opening held committed agreement after)
    (returned : after.tryAddDelta cryptoShorthash ids delta = .ok (none, next)) :
    Alike after next := by
  have outcome := push_outcome accounts delta ids
  rw [returned] at outcome
  cases outcome with
  | rejected rejected reason =>
      refine ⟨?_, rejected.unchanged⟩
      by_cases decided : Decided committed
      · rw [rejected.word decided]
        exact ⟨rfl, rfl, rfl⟩
      · exact undecided_words decided accounts rejected.accounts

/-- Once nothing extra is open and no slot was taken, only swap ids differ. -/
theorem ahead_done (ahead : Ahead cryptoShorthash opening committed held 0 0 before after) :
    Alike before after := by
  obtain ⟨left, beforeAccounts⟩ := ahead.start
  obtain ⟨right, afterAccounts⟩ := ahead.now
  rw [zero_add] at afterAccounts
  have first := beforeAccounts.booked
  have second := afterAccounts.booked
  constructor
  · by_cases decided : Decided committed
    · rw [ahead.word decided]
      exact ⟨rfl, rfl, rfl⟩
    · exact undecided_words decided beforeAccounts afterAccounts
  · have subtracted : after.totalSubtracted = before.totalSubtracted :=
      Int64.toInt_inj.mp (second.subtracted.trans first.subtracted.symm)
    have added : after.totalAdded = before.totalAdded :=
      AtomicUint128.value_injective (second.added.trans first.added.symm)
    have limit : after.sizeIncrease = before.sizeIncrease :=
      UInt64.toNat_inj.mp (second.limit.trans first.limit.symm)
    have table := ahead.table rfl
    have counted : after.numNewElts = before.numNewElts :=
      UInt32.toNat_inj.mp (second.counted.trans first.counted.symm)
    have cleared : after.hashsetClearCommitted = before.hashsetClearCommitted := by
      rw [Bool.eq_iff_iff, second.cleared, first.cleared]
    have threshold : after.maxCommittedClearThreshold = before.maxCommittedClearThreshold :=
      UInt64.toNat_inj.mp (second.threshold.trans first.threshold.symm)
    have deleted : after.deleteLastCommitted = before.deleteLastCommitted := by
      rw [Bool.eq_iff_iff, second.deleted, first.deleted]
    have available : after.availableAsset = before.availableAsset := by
      have sums := second.available.trans first.available.symm
      exact UInt64.toNat_inj.mp (by omega)
    have upperbound : after.availableAssetUpperbound = before.availableAssetUpperbound := by
      have sums := second.upperbound.trans first.upperbound.symm
      exact UInt64.toNat_inj.mp (by omega)
    have stored := second.committedBase.trans first.committedBase.symm
    rcases after with ⟨baseObj⟩
    rcases before with ⟨otherBase⟩
    simp only at *
    simp only [subtracted, added, limit, table, counted, cleared, threshold, deleted, available,
      upperbound, stored]

end OneObject

/-! ## Every object, ahead of where it was -/

/-- A transaction's own holders on the base value of one key. -/
def holdersOn (key : AddressAndKey) (calls : List (CallIds × AddressAndKey × StorageDelta)) :
    Nat :=
  calls.countP fun call => call.2.1 = key ∧ call.2.2.class?.isSome = true

/-- The slots that a list of accepted calls takes from the table of one key. -/
def slotsOn (key : AddressAndKey) : List (CallIds × AddressAndKey × StorageDelta) → Nat
  | [] => 0
  | (_, other, delta) :: rest => (if other = key then slotsTaken delta else 0) + slotsOn key rest

def insertionsIn (calls : List (CallIds × AddressAndKey × StorageDelta)) : ℕ :=
  calls.countP fun call => call.2.2.inserted?.isSome

/-- The index that the delta refused first keeps, if it got as far as the table.
`try_insert` allocates before it looks for a slot. -/
def refusedIndex : List (CallIds × AddressAndKey × StorageDelta) → Objects → ℕ
  | [], _ => 0
  | (ids, key, delta) :: _, objects =>
      if (objects key).takesIndex cryptoShorthash ids delta then 1 else 0

/-- `after` holds `extra` on top of what `before` holds, on every key. -/
def Pending (openings : AddressAndKey → Opening)
    (committed : AddressAndKey → Multiset StorageDelta) (held extra : Rewinds)
    (consumed : AddressAndKey → Nat) (before after : Objects) : Prop :=
  ∀ key, Ahead cryptoShorthash (openings key) (committed key) ↑(Rewinds.on key held)
    ↑(Rewinds.on key extra) (consumed key) (before key) (after key)

theorem insertions_in_cons (ids : CallIds) (key : AddressAndKey) (delta : StorageDelta)
    (rest : List (CallIds × AddressAndKey × StorageDelta)) :
    insertionsIn ((ids, key, delta) :: rest) = slotsTaken delta + insertionsIn rest := by
  rw [insertionsIn, List.countP_cons, Nat.add_comm]
  cases delta <;> rfl

section EveryObject

variable {cryptoShorthash} {openings : AddressAndKey → Opening}
  {committed : AddressAndKey → Multiset StorageDelta} {held extra : Rewinds}
  {consumed : AddressAndKey → Nat} {before after : Objects}

theorem pending_start {world : World}
    (kept : WorldKept cryptoShorthash openings committed world) :
    Pending cryptoShorthash openings committed world.held [] (fun _ => 0) world.objects
      world.objects := by
  intro key
  obtain ⟨agreement, accounts⟩ := kept key
  refine ⟨⟨agreement, accounts⟩, ⟨agreement, ?_⟩, fun _ => rfl, rfl, fun _ => rfl⟩
  rw [Rewinds.on_nil, Multiset.coe_nil, zero_add]
  exact accounts

theorem pending_update {more : Rewinds} {count : AddressAndKey → Nat}
    (pending : Pending cryptoShorthash openings committed held extra consumed before after)
    (key : AddressAndKey) {next : RevertableObject}
    (here : Ahead cryptoShorthash (openings key) (committed key) ↑(Rewinds.on key held)
      ↑(Rewinds.on key more) (count key) (before key) next)
    (elsewhere : ∀ other, other ≠ key →
      Rewinds.on other more = Rewinds.on other extra ∧ count other = consumed other) :
    Pending cryptoShorthash openings committed held more count before
      (Function.update after key next) := by
  intro other
  by_cases same : other = key
  · subst same
    rw [Function.update_self]
    exact here
  · obtain ⟨rewinds, counted⟩ := elsewhere other same
    rw [Function.update_of_ne same, rewinds, counted]
    exact pending other

theorem pending_push_all {pushed unpushed : List (CallIds × AddressAndKey × StorageDelta)}
    {accepted : Bool} {granted : Rewinds} {allocated count : ℕ} {final : Objects}
    (pending : Pending cryptoShorthash openings committed held extra consumed before after)
    (returned : pushAll cryptoShorthash allocated (pushed ++ unpushed) after =
      .ok (accepted, granted, count, final))
    (whole : granted.length = pushed.length) :
    granted.map (fun entry => (entry.1, entry.2.delta)) = pushed.map Prod.snd ∧
      count = allocated + insertionsIn pushed + refusedIndex cryptoShorthash unpushed final ∧
      ∃ more, more.Perm (granted ++ extra) ∧
        Pending cryptoShorthash openings committed held more
          (fun key => consumed key + slotsOn key pushed) before final := by
  induction pushed generalizing after extra consumed granted allocated with
  | nil =>
      cases List.length_eq_zero_iff.mp whole
      rw [List.nil_append] at returned
      cases unpushed with
      | nil =>
          cases returned
          exact ⟨rfl, rfl, extra, List.Perm.refl _, pending⟩
      | cons call _ =>
          obtain ⟨ids, key, delta⟩ := call
          simp only [pushAll, bind, Except.bind] at returned
          cases tried : (after key).tryAddDelta cryptoShorthash (ids.holding allocated) delta with
          | error fault =>
              rw [tried] at returned
              cases returned
          | ok result =>
              obtain ⟨answer, next⟩ := result
              rw [tried] at returned
              cases answer with
              | some rewind =>
                  simp only at returned
                  split at returned <;> cases returned
              | none =>
                  cases returned
                  obtain ⟨agreement, accounts⟩ := (pending key).now
                  have alike := alike_takes_index cryptoShorthash (rejected_alike accounts tried)
                    ids delta
                  refine ⟨rfl, ?_, extra, List.Perm.refl _, pending_update pending key
                    (ahead_reject (pending key) tried) fun other _ => ⟨rfl, rfl⟩⟩
                  simp only [refusedIndex, Function.update_self, ← alike]
                  exact allocated_after_eq
  | cons call rest induction =>
      obtain ⟨ids, key, delta⟩ := call
      simp only [List.cons_append, pushAll] at returned
      cases tried : (after key).tryAddDelta cryptoShorthash (ids.holding allocated) delta with
      | error fault =>
          rw [tried] at returned
          cases returned
      | ok result =>
          obtain ⟨answer, next⟩ := result
          rw [tried] at returned
          simp only [bind, Except.bind] at returned
          cases answer with
          | none =>
              cases returned
              cases whole
          | some rewind =>
              have taken := (accepted_takes tried).2
              simp only [taken] at returned
              cases later : pushAll cryptoShorthash (allocated + slotsTaken delta)
                  (rest ++ unpushed) (Function.update after key next) with
              | error fault =>
                  rw [later] at returned
                  cases returned
              | ok result =>
                  obtain ⟨answer, others, counted, last⟩ := result
                  rw [later] at returned
                  cases returned
                  obtain ⟨own, ahead⟩ := ahead_push (pending key) tried
                  have stepped : Pending cryptoShorthash openings committed held
                      ((key, rewind) :: extra)
                      (fun other => consumed other + if key = other then slotsTaken delta else 0)
                      before (Function.update after key next) := by
                    apply pending_update pending key
                    · simp only [Rewinds.on_self, if_true]
                      exact ahead
                    · intro other different
                      rw [Rewinds.on_other other different, if_neg (Ne.symm different)]
                      exact ⟨rfl, rfl⟩
                  have short : others.length = rest.length := Nat.succ.inj whole
                  obtain ⟨listed, indices, more, perm, moved⟩ := induction stepped later short
                  refine ⟨?_, ?_, more, perm.trans List.perm_middle, ?_⟩
                  · rw [List.map_cons, List.map_cons, listed, own]
                  · have one := insertions_in_cons ids key delta rest
                    omega
                  · intro other
                    have there := moved other
                    simp only [Nat.add_assoc] at there
                    exact there

theorem pending_perm {more : Rewinds} (same : more.Perm extra)
    (pending : Pending cryptoShorthash openings committed held extra consumed before after) :
    Pending cryptoShorthash openings committed held more consumed before after := by
  intro key
  rw [Rewinds.on_perm key same]
  exact pending key

theorem pending_destroy {key : AddressAndKey} {rewind : DeltaRewind}
    (pending : Pending cryptoShorthash openings committed held ((key, rewind) :: extra) consumed
      before after)
    (taken : consumed key = 0 → rewind.delta.inserted? = none) {newId : UniqueId}
    {next : RevertableObject}
    (returned : rewind.destroy cryptoShorthash newId (after key) = .ok next) :
    Pending cryptoShorthash openings committed held extra consumed before
      (Function.update after key next) := by
  have ahead := pending key
  rw [Rewinds.on_self, ← Multiset.cons_coe] at ahead
  apply pending_update pending key
  · exact ahead_destroy ahead taken returned
  · intro other different
    exact ⟨(Rewinds.on_other other different rewind extra).symm, rfl⟩

/-- The destructors take everything back but the slots of accepted insertions, which stay
tombstones until the block ends. -/
theorem pending_destroy_all {undos : List (UniqueId × AddressAndKey × DeltaRewind)}
    {final : Objects}
    (pending : Pending cryptoShorthash openings committed held (undos.map Prod.snd) consumed
      before after)
    (taken : ∀ undo ∈ undos, consumed undo.2.1 = 0 → undo.2.2.delta.inserted? = none)
    (returned : destroyAll cryptoShorthash undos after = .ok final) :
    Pending cryptoShorthash openings committed held [] consumed before final := by
  induction undos generalizing after with
  | nil =>
      cases returned
      exact pending
  | cons undo rest induction =>
      obtain ⟨newId, key, rewind⟩ := undo
      rw [List.forall_mem_cons] at taken
      simp only [destroyAll] at returned
      cases destroyed : rewind.destroy cryptoShorthash newId (after key) with
      | error fault =>
          rw [destroyed] at returned
          cases returned
      | ok next =>
          rw [destroyed] at returned
          exact induction (pending_destroy pending taken.1 destroyed) taken.2 returned

/-- The destructors all return exactly when none starts on a full count. -/
theorem destroy_all_returns_iff {undos : List (UniqueId × AddressAndKey × DeltaRewind)}
    (pending : Pending cryptoShorthash openings committed held (undos.map Prod.snd) consumed
      before after)
    (taken : ∀ undo ∈ undos, consumed undo.2.1 = 0 → undo.2.2.delta.inserted? = none) :
    (∃ final, destroyAll cryptoShorthash undos after = .ok final) ↔
      ∀ undo ∈ undos, undo.2.2.holds = true →
        ¬ Full (committed undo.2.1)
          ↑(Rewinds.on undo.2.1 (undos.map Prod.snd ++ held)) := by
  induction undos generalizing after with
  | nil =>
      constructor
      · intro _ undo impossible
        cases impossible
      · exact fun _ => ⟨after, rfl⟩
  | cons undo rest induction =>
      obtain ⟨newId, key, rewind⟩ := undo
      rw [List.forall_mem_cons] at taken
      obtain ⟨agreement, accounts⟩ := (pending key).now
      rw [List.map_cons, Rewinds.on_self, ← Multiset.cons_coe, Multiset.cons_add,
        Multiset.coe_add, ← Rewinds.on_append] at accounts
      have first := destroy_returns_iff accounts newId
      -- What is open on a key before the first destructor and after it.
      have wholeOn : ∀ other, (Rewinds.on other (((newId, key, rewind) :: rest).map Prod.snd ++
          held) : Multiset DeltaRewind) =
          ↑(Rewinds.on other ((key, rewind) :: (rest.map Prod.snd ++ held))) := fun other => rfl
      constructor
      · intro ⟨final, returned⟩
        simp only [destroyAll] at returned
        cases destroyed : rewind.destroy cryptoShorthash newId (after key) with
        | error fault =>
            rw [destroyed] at returned
            cases returned
        | ok next =>
            rw [destroyed] at returned
            have own := first.mp ⟨next, destroyed⟩
            have later := (induction (pending_destroy pending taken.1 destroyed) taken.2).mp
              ⟨final, returned⟩
            rw [List.forall_mem_cons]
            constructor
            · intro holds
              rw [wholeOn, Rewinds.on_self]
              exact own holds
            · intro undo member holds full
              by_cases here : undo.2.1 = key
              · rw [wholeOn, here, Rewinds.on_self, ← Multiset.cons_coe] at full
                cases holder : rewind.holds with
                | true => exact own holder full
                | false =>
                    apply later undo member holds
                    rw [here]
                    rw [Full, holder_count_cons, holder] at full
                    exact full
              · rw [wholeOn, Rewinds.on_other undo.2.1 here] at full
                exact later undo member holds full
      · intro room
        rw [List.forall_mem_cons] at room
        have own : rewind.holds = true → ¬ Full (committed key)
            (rewind ::ₘ ↑(Rewinds.on key (rest.map Prod.snd ++ held))) := by
          intro holds full
          apply room.1 holds
          rw [wholeOn, Rewinds.on_self]
          exact full
        obtain ⟨next, destroyed⟩ := first.mpr own
        have later := induction (pending_destroy pending taken.1 destroyed) taken.2
        simp only [destroyAll, destroyed, bind, Except.bind]
        apply later.mpr
        intro undo member holds full
        apply room.2 undo member holds
        rw [wholeOn]
        apply full_mono _ full
        by_cases here : undo.2.1 = key
        · rw [here, Rewinds.on_self, ← Multiset.cons_coe]
          exact Multiset.le_cons_self _ _
        · rw [Rewinds.on_other undo.2.1 here]

end EveryObject

end Scs
