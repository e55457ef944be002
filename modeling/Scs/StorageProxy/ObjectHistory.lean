import Scs.Object.NonnegativeInt64
import Scs.StorageProxy.CommittedBase

/-!
# A committed object over any number of blocks

What `commit_round` leaves is what the next block relies on: the binary search
on the order of the hashes, the room check on the limit, the unchecked access to
the body on the type.
-/

namespace Scs

set_option autoImplicit false

open HashSetEntry Ledger Lockstep Runs Words

/-- A committed block of one object: what it started from and the deltas that
were committed. -/
structure FinishedBlock where
  base : Option StorageObject
  committed : Multiset StorageDelta

namespace FinishedBlock

def WritesInt64 (block : FinishedBlock) : Prop :=
  ∃ setAdd, StorageDelta.nonnegativeInt64SetAdd setAdd ∈ block.committed

/-- The new limit as the machine adds it up, before the cap. The sum is kept in 64 bits and
wraps beyond them. -/
def raisedLimit (block : FinishedBlock) : ℕ :=
  (limitWord block.base).toNat + total StorageDelta.limitRaise block.committed

end FinishedBlock

/-- The blocks of an object from `start` on, the last one first. A block that is
undone leaves no trace, and a database may construct the object again. -/
inductive ObjectHistory (cryptoShorthash : CryptoShorthash) (start : RevertableObject) :
    List FinishedBlock → RevertableObject → Prop
  | start : ObjectHistory cryptoShorthash start [] start
  | finished {history : List FinishedBlock} {before after : RevertableObject} {calls : List Call}
      {session : Session} (earlier : ObjectHistory cryptoShorthash start history before)
      (run : Run (Step cryptoShorthash) (.start before) calls session)
      (closed : session.held = 0) (returned : session.object.commitRound = .ok after) :
      ObjectHistory cryptoShorthash start
        ({ base := before.getCommittedObject, committed := session.committed } :: history) after
  | undone {history : List FinishedBlock} {before : RevertableObject} {calls : List Call}
      {session : Session} (earlier : ObjectHistory cryptoShorthash start history before)
      (run : Run (Step cryptoShorthash) (.start before) calls session)
      (closed : session.held = 0) :
      ObjectHistory cryptoShorthash start history session.object.rewindRound
  | reloaded {history : List FinishedBlock} {before : RevertableObject}
      (earlier : ObjectHistory cryptoShorthash start history before) :
      ObjectHistory cryptoShorthash start history (.onBase before.getCommittedObject)

/-! ## What one committed block makes of the committed value -/

section Settled

variable {cryptoShorthash : CryptoShorthash} {opening : Opening}
  {committed : Multiset StorageDelta} {agreement : Agreement} {object : RevertableObject}
  {value? : Option StorageDeltaClass} {agreed : StorageObject} {result : Option StorageObject}

structure SetSettles (opening : Opening) (committed : Multiset StorageDelta) (set : HashSet) :
    Prop where
  hashes : set.hashes.Sublist (sortedHashes (↑opening.hashes + inserts committed))
  limit : set.maxSize = UInt32.ofNat (min maxHashSetSize
    ((opening.limit + total StorageDelta.limitRaise committed) % 2 ^ 64))

theorem settle_set (kempt : Kempt opening.base) (solvent : Solvent opening committed committed)
    (settled : settle opening value? committed = .ok result) {set : HashSet} {fee : UInt64}
    (left : result = some { body := .hashSet set, escrowedFee := fee }) :
    SetSettles opening committed set := by
  subst left
  obtain ⟨start, made, rest⟩ := bind_ok_iff.mp settled
  cases start with
  | none => cases rest
  | some agreed =>
      obtain ⟨_, opened⟩ := agreed_object_start kempt made
      simp only at rest
      split_ifs at rest with deleted
      · cases rest
      · obtain ⟨last, finished, same⟩ := bind_ok_iff.mp rest
        cases same
        obtain ⟨body, escrowedFee⟩ := agreed
        cases body with
        | rawMemoryStorage raw => cases finished
        | nonnegativeInt64 value => cases finished
        | unconstrainedInt64 value => cases finished
        | asset stored => cases finished
        | hashSet agreedSet =>
            obtain ⟨hashes, limit⟩ := opened agreedSet rfl
            have short := entries_short kempt.toTidy solvent
            rw [← hashes] at short
            obtain ⟨left, cleared, same⟩ := bind_ok_iff.mp finished
            rw [settle_hash_set_eq agreedSet short] at cleared
            cases cleared
            cases same
            constructor
            · rw [← hashes]
              simp only
              split_ifs
              · exact List.filter_sublist
              · exact List.Sublist.refl _
            · rw [opening_limit opening, ← limit]

theorem agreed_type_kept (solvent : Solvent opening committed committed)
    (accounts : Accounts cryptoShorthash opening 0 committed agreement object)
    (made : agreedObject opening.base agreement.value? = .ok (some agreed)) {stored : StorageObject}
    (base : opening.base = some stored) : agreed.body.type = stored.body.type := by
  have required : opening.requiredType = some stored.body.type := by
    rw [Opening.requiredType, base]
    rfl
  have typed := agreed_object_type made
  cases valued : agreement.value? with
  | none =>
      rw [valued, required] at typed
      exact Option.some.inj typed
  | some value =>
      obtain ⟨delta, member, classed⟩ := (agreed_value_iff accounts value).mp valued
      rw [valued] at typed
      exact (Option.some.inj typed).trans (solvent.allowed delta member value classed _ required)

theorem settle_body_type {last : StorageObject}
    (finished : settleBody opening committed agreed = .ok last) :
    last.body.type = agreed.body.type := by
  obtain ⟨body, fee⟩ := agreed
  cases body with
  | hashSet set =>
      obtain ⟨left, _, same⟩ := bind_ok_iff.mp finished
      cases same
      rfl
  | unconstrainedInt64 value => cases finished
  | rawMemoryStorage raw =>
      cases finished
      rfl
  | nonnegativeInt64 value =>
      cases finished
      rfl
  | asset stored =>
      cases finished
      rfl

/-- Only a deletion takes an object away or changes its type. -/
theorem settle_keeps_type (solvent : Solvent opening committed committed)
    (accounts : Accounts cryptoShorthash opening 0 committed agreement object)
    (kept : StorageDelta.deleteLast ∉ committed)
    (settled : settle opening agreement.value? committed = .ok result) {stored : StorageObject}
    (base : opening.base = some stored) :
    ∃ last, result = some last ∧ last.body.type = stored.body.type := by
  obtain ⟨start, made, rest⟩ := bind_ok_iff.mp settled
  cases start with
  | none =>
      have absent := (agreed_object_none made).1
      rw [base] at absent
      cases absent
  | some agreed =>
      simp only [if_neg kept] at rest
      obtain ⟨last, finished, same⟩ := bind_ok_iff.mp rest
      cases same
      exact ⟨last, rfl,
        (settle_body_type finished).trans (agreed_type_kept solvent accounts made base)⟩

/-- The sum is not below zero unless the set value is. -/
theorem settle_int64_sign {value : Int64}
    (covered : total StorageDelta.withdrawal committed = 0 ∨
      (total StorageDelta.withdrawal committed : ℤ) ≤ value.toInt)
    (negative : (settleInt64 value committed).toInt < 0) : value.toInt < 0 := by
  have lowest := value.le_toInt
  have highest := value.toInt_lt
  by_contra nonnegative
  unfold settleInt64 at negative
  simp only at negative
  split_ifs at negative with saturated
  · have top : Int64.maxValue.toInt = 2 ^ 63 - 1 := rfl
    omega
  · rw [Int64.toInt_ofInt_of_le (by omega) (by omega)] at negative
    omega

theorem settle_int64_unset {value : Int64}
    (unset : ∀ setAdd, StorageDelta.nonnegativeInt64SetAdd setAdd ∉ committed) :
    settleInt64 value committed = value := by
  have nothing (measure : StorageDelta → ℕ)
      (plain : ∀ delta, (∀ setAdd, delta ≠ .nonnegativeInt64SetAdd setAdd) → measure delta = 0) :
      total measure committed = 0 := by
    apply total_eq_zero
    intro delta member
    apply plain
    rintro setAdd rfl
    exact unset setAdd member
  have withdrawn : total StorageDelta.withdrawal committed = 0 := by
    apply nothing
    intro delta other
    cases delta with
    | nonnegativeInt64SetAdd setAdd => exact absurd rfl (other setAdd)
    | _ => rfl
  have deposited : total StorageDelta.deposit committed = 0 := by
    apply nothing
    intro delta other
    cases delta with
    | nonnegativeInt64SetAdd setAdd => exact absurd rfl (other setAdd)
    | _ => rfl
  have held : total StorageDelta.deposit committed < 2 ^ 128 := by
    rw [deposited]
    decide
  have highest := value.toInt_lt
  apply Int64.toInt_inj.mp
  rw [settle_int64_exact (.inl withdrawn) held, amount_total_eq, withdrawn, deposited]
  omega

theorem settle_negative (kempt : Kempt opening.base)
    (accounts : Accounts cryptoShorthash opening 0 committed agreement object)
    (settled : settle opening agreement.value? committed = .ok result) {value : Int64}
    {fee : UInt64} (left : result = some { body := .nonnegativeInt64 value, escrowedFee := fee })
    (negative : value.toInt < 0) :
    (∃ setAdd, StorageDelta.nonnegativeInt64SetAdd setAdd ∈ committed ∧
      setAdd.setValue.toInt < 0) ∨
    ((∀ setAdd, StorageDelta.nonnegativeInt64SetAdd setAdd ∉ committed) ∧
      opening.base = some { body := .nonnegativeInt64 value, escrowedFee := 0 }) := by
  subst left
  obtain ⟨start, made, rest⟩ := bind_ok_iff.mp settled
  cases start with
  | none => cases rest
  | some agreed =>
      simp only at rest
      split_ifs at rest with deleted
      · cases rest
      · obtain ⟨last, finished, same⟩ := bind_ok_iff.mp rest
        cases same
        have kind := settle_body_type finished
        obtain ⟨body, escrowedFee⟩ := agreed
        cases body with
        | hashSet set => cases kind
        | rawMemoryStorage raw => cases kind
        | unconstrainedInt64 other => cases kind
        | asset stored => cases kind
        | nonnegativeInt64 before =>
            cases finished
            cases valued : agreement.value? with
            | none =>
                have unset (setAdd : SetAdd) :
                    StorageDelta.nonnegativeInt64SetAdd setAdd ∉ committed := by
                  intro member
                  have agreed := (agreed_value_iff accounts _).mpr ⟨_, member, rfl⟩
                  rw [valued] at agreed
                  cases agreed
                rw [valued] at made
                have stored : opening.base = _ := Except.ok.inj made
                have fee := kempt.fee
                rw [stored] at fee
                obtain rfl : escrowedFee = 0 := fee
                rw [settle_int64_unset unset]
                exact .inr ⟨unset, stored⟩
            | some agreedValue =>
                obtain ⟨delta, member, classed⟩ := (agreed_value_iff accounts _).mp valued
                rw [valued] at made
                obtain ⟨from_class, classMade, same⟩ := bind_ok_iff.mp made
                cases same
                have typed := object_from_delta_class_type classMade
                cases delta <;> cases classed <;> cases typed
                rename_i setAdd
                have set : before = setAdd.setValue := by
                  unfold objectFromDeltaClass at classMade
                  simp only at classMade
                  split_ifs at classMade
                  cases classMade
                  rfl
                subst set
                exact .inl ⟨setAdd, member,
                  settle_int64_sign (set_value_covers accounts member) negative⟩

theorem settle_distinct (distinct : opening.hashes.Nodup)
    (solvent : Solvent opening committed committed) {set : HashSet}
    (settles : SetSettles opening committed set) : set.hashes.Nodup := by
  apply settles.hashes.nodup
  rw [← Multiset.coe_nodup, sortedHashes, Multiset.sort_eq, Multiset.nodup_add]
  refine ⟨Multiset.coe_nodup.mpr distinct, solvent.distinct, ?_⟩
  rw [Multiset.disjoint_right]
  intro entry inserted
  exact solvent.unseen entry inserted

/-- A limit that the machine adds up exactly does not shrink, and has room. -/
theorem settle_room (kempt : Kempt opening.base)
    (fits : opening.hashes.length ≤ opening.limit)
    (solvent : Solvent opening committed committed) {set : HashSet}
    (settles : SetSettles opening committed set)
    (exact_sum : opening.limit + total StorageDelta.limitRaise committed < 2 ^ 64) :
    opening.limit ≤ set.maxSize.toNat ∧ set.hashes.length ≤ set.maxSize.toNat := by
  have bounded := kempt.bounded
  rw [← opening_limit opening] at bounded
  have raised : set.maxSize.toNat =
      min maxHashSetSize (opening.limit + total StorageDelta.limitRaise committed) := by
    rw [settles.limit, Nat.mod_eq_of_lt exact_sum]
    apply UInt32.toNat_ofNat_of_lt'
    exact (Nat.min_le_left _ _).trans_lt (by decide)
  have merged := settles.hashes.length_le
  rw [sortedHashes, Multiset.length_sort, Multiset.card_add, Multiset.coe_card] at merged
  have inside : set.hashes.length ≤ opening.limit := by
    by_cases empty : inserts committed = 0
    · rw [empty, Multiset.card_zero] at merged
      omega
    · have room := solvent.room empty
      omega
  omega

end Settled

/-! ## Chains of blocks -/

section History

variable {cryptoShorthash : CryptoShorthash} {start object : RevertableObject}
  {history : List FinishedBlock}

theorem history_reachable (reachable : ReachableObject cryptoShorthash start)
    (reached : ObjectHistory cryptoShorthash start history object) :
    ReachableObject cryptoShorthash object := by
  induction reached with
  | start => exact reachable
  | finished _ run closed returned induction => exact .committed induction run closed returned
  | undone _ run closed induction => exact .rewound induction run closed
  | reloaded _ induction => exact .reloaded induction

theorem on_base_committed (base : Option StorageObject) :
    (RevertableObject.onBase base).getCommittedObject = base := by
  cases base <;> rfl

structure BlockLedger (cryptoShorthash : CryptoShorthash) (before : RevertableObject)
    (session : Session) (opening : Opening) (agreement : Agreement) : Prop where
  base : opening.base = before.getCommittedObject
  kempt : Kempt opening.base
  accounts : Accounts cryptoShorthash opening 0 session.committed agreement session.object
  solvent : Solvent opening session.committed session.committed

variable {before after : RevertableObject} {calls : List Call} {session : Session}

theorem block_ledger (reachable : ReachableObject cryptoShorthash before)
    (run : Run (Step cryptoShorthash) (.start before) calls session) (closed : session.held = 0) :
    ∃ opening agreement, BlockLedger cryptoShorthash before session opening agreement := by
  obtain ⟨opening, base, started⟩ := at_round_start (reachable_at_round_start reachable)
  obtain ⟨agreement, accounts⟩ := run_kept started run
  rw [closed] at accounts
  have solvent := accounts.solvent
  rw [live_none] at solvent
  exact ⟨opening, agreement, base, base ▸ reachable_kempt reachable, accounts, solvent⟩

theorem block_settles {opening : Opening} {agreement : Agreement}
    (ledger : BlockLedger cryptoShorthash before session opening agreement)
    (returned : session.object.commitRound = .ok after) :
    settle opening agreement.value? session.committed = .ok after.getCommittedObject := by
  have settles := commit_round_settles ledger.accounts
  rw [returned] at settles
  exact settles.symm

theorem block_rewinds {opening : Opening} {agreement : Agreement}
    (ledger : BlockLedger cryptoShorthash before session opening agreement) :
    session.object.rewindRound.getCommittedObject = before.getCommittedObject := by
  have kept : session.object.rewindRound.getCommittedObject = opening.base :=
    ledger.accounts.booked.committedBase
  exact kept.trans ledger.base

/-- What holds of every committed value holds if a committed block keeps it. -/
theorem history_invariant (holds : List FinishedBlock → Option StorageObject → Prop)
    (reachable : ReachableObject cryptoShorthash start)
    (reached : ObjectHistory cryptoShorthash start history object)
    (first : holds [] start.getCommittedObject)
    (next : ∀ {history : List FinishedBlock} {before after : RevertableObject} {session : Session}
      {opening : Opening} {agreement : Agreement},
      BlockLedger cryptoShorthash before session opening agreement →
      settle opening agreement.value? session.committed = .ok after.getCommittedObject →
      holds history before.getCommittedObject →
      holds ({ base := before.getCommittedObject, committed := session.committed } :: history)
        after.getCommittedObject) : holds history object.getCommittedObject := by
  induction reached with
  | start => exact first
  | finished earlier run closed returned induction =>
      obtain ⟨opening, agreement, ledger⟩ :=
        block_ledger (history_reachable reachable earlier) run closed
      exact next ledger (block_settles ledger returned) induction
  | undone earlier run closed induction =>
      obtain ⟨opening, agreement, ledger⟩ :=
        block_ledger (history_reachable reachable earlier) run closed
      rw [block_rewinds ledger]
      exact induction
  | reloaded earlier induction =>
      rw [on_base_committed]
      exact induction

theorem of_committed_set (holds : List HashSetEntry → UInt32 → Prop) {base : Option StorageObject}
    (fresh : holds [] startHashSetSize)
    (set : ∀ set fee, base = some { body := .hashSet set, escrowedFee := fee } →
      holds set.hashes set.maxSize) : holds (Opening.onBase base).hashes (limitWord base) := by
  rcases base with _ | ⟨body, fee⟩
  · exact fresh
  · cases body with
    | hashSet stored => exact set stored fee rfl
    | _ => exact fresh

theorem history_distinct (reached : ObjectHistory cryptoShorthash .fresh history object) :
    (Opening.onBase object.getCommittedObject).hashes.Nodup := by
  apply history_invariant (fun _ base => (Opening.onBase base).hashes.Nodup) .fresh reached
  · exact List.nodup_nil
  · intro history before after session opening agreement ledger settled distinct
    have started : opening.hashes.Nodup := by
      rw [← ledger.base] at distinct
      exact distinct
    apply of_committed_set (fun hashes _ => hashes.Nodup) List.nodup_nil
    intro set fee left
    exact settle_distinct started ledger.solvent
      (settle_set ledger.kempt ledger.solvent settled left)

/-- The limits of a set as long as the machine has added them up exactly: they never fall
below the first one, and the set has room within them. -/
theorem history_room (reached : ObjectHistory cryptoShorthash .fresh history object)
    (exact_sums : ∀ block ∈ history, block.raisedLimit < 2 ^ 64) :
    startHashSetSize.toNat ≤ (limitWord object.getCommittedObject).toNat ∧
      (Opening.onBase object.getCommittedObject).hashes.length ≤
        (limitWord object.getCommittedObject).toNat := by
  revert exact_sums
  apply history_invariant (fun history base =>
    (∀ block ∈ history, block.raisedLimit < 2 ^ 64) →
      startHashSetSize.toNat ≤ (limitWord base).toNat ∧
        (Opening.onBase base).hashes.length ≤ (limitWord base).toNat) .fresh reached
  · exact fun _ => ⟨Nat.le_refl _, Nat.zero_le _⟩
  · intro history before after session opening agreement ledger settled earlier exact_sums
    rw [List.forall_mem_cons] at exact_sums
    obtain ⟨started, fits⟩ := earlier exact_sums.2
    have exact_sum := exact_sums.1
    unfold FinishedBlock.raisedLimit at exact_sum
    rw [← ledger.base, ← opening_limit opening] at started fits exact_sum
    have room : opening.hashes.length ≤ opening.limit := fits
    apply of_committed_set
      (fun hashes limit => startHashSetSize.toNat ≤ limit.toNat ∧ hashes.length ≤ limit.toNat)
    · exact ⟨Nat.le_refl _, Nat.zero_le _⟩
    · intro set fee left
      obtain ⟨grown, inside⟩ := settle_room ledger.kempt room ledger.solvent
        (settle_set ledger.kempt ledger.solvent settled left) exact_sum
      exact ⟨started.trans grown, inside⟩

/-- The last block that wrote the integer set it to a negative value. -/
def NegativeWrite (history : List FinishedBlock) : Prop :=
  ∃ later block earlier, history = later ++ block :: earlier ∧
    (∀ other ∈ later, ¬ other.WritesInt64) ∧
    ∃ setAdd, StorageDelta.nonnegativeInt64SetAdd setAdd ∈ block.committed ∧
      setAdd.setValue.toInt < 0

theorem history_negative (reached : ObjectHistory cryptoShorthash .fresh history object)
    {value : Int64} {fee : UInt64}
    (stored : object.getCommittedObject =
      some { body := .nonnegativeInt64 value, escrowedFee := fee })
    (negative : value.toInt < 0) : NegativeWrite history := by
  revert fee
  apply history_invariant (fun history base => ∀ {fee : UInt64},
    base = some { body := .nonnegativeInt64 value, escrowedFee := fee } → NegativeWrite history)
    .fresh reached
  · intro fee impossible
    cases impossible
  · intro history before after session opening agreement ledger settled earlier fee left
    rcases settle_negative ledger.kempt ledger.accounts settled left negative with
      ⟨setAdd, member, below⟩ | ⟨unset, kept⟩
    · exact ⟨[], _, history, rfl, fun _ impossible => absurd impossible List.not_mem_nil,
        setAdd, member, below⟩
    · obtain ⟨later, block, first, split, quiet, write⟩ := earlier (ledger.base.symm.trans kept)
      refine ⟨_ :: later, block, first, congrArg (_ :: ·) split, ?_, write⟩
      rw [List.forall_mem_cons]
      exact ⟨fun ⟨setAdd, member⟩ => unset setAdd member, quiet⟩

/-- Without a deletion an object keeps its type from one block to the next. -/
theorem history_type (reachable : ReachableObject cryptoShorthash start)
    (reached : ObjectHistory cryptoShorthash start history object)
    (kept : ∀ block ∈ history, StorageDelta.deleteLast ∉ block.committed) {stored : StorageObject}
    (present : start.getCommittedObject = some stored) :
    ∃ last, object.getCommittedObject = some last ∧ last.body.type = stored.body.type := by
  revert kept
  apply history_invariant (fun history base =>
    (∀ block ∈ history, StorageDelta.deleteLast ∉ block.committed) →
      ∃ last, base = some last ∧ last.body.type = stored.body.type) reachable reached
  · exact fun _ => ⟨stored, present, rfl⟩
  · intro history before after session opening agreement ledger settled earlier kept
    rw [List.forall_mem_cons] at kept
    obtain ⟨middle, base, same⟩ := earlier kept.2
    obtain ⟨last, left, type⟩ := settle_keeps_type ledger.solvent ledger.accounts kept.1 settled
      (ledger.base.trans base)
    exact ⟨last, left, type.trans same⟩

/-- Whatever blocks an object has been through: its set is in strict order below
the largest size, and as long as the limits have been added up exactly it fits a
limit that is at least the first one; its integer is negative only by a negative
write; only a deletion changes its type; and the next block can be committed. -/
theorem committed_stays_well_formed
    (reached : ObjectHistory cryptoShorthash .fresh history object) :
    (∀ set fee, object.getCommittedObject = some { body := .hashSet set, escrowedFee := fee } →
      Normalized set.hashes ∧ set.hashes.Nodup ∧ set.maxSize.toNat ≤ maxHashSetSize ∧
      ((∀ block ∈ history, block.raisedLimit < 2 ^ 64) →
        set.hashes.length ≤ set.maxSize.toNat ∧ startHashSetSize.toNat ≤ set.maxSize.toNat)) ∧
    (∀ value fee,
      object.getCommittedObject = some { body := .nonnegativeInt64 value, escrowedFee := fee } →
      value.toInt < 0 → NegativeWrite history) ∧
    (∀ further last, ObjectHistory cryptoShorthash object further last →
      (∀ block ∈ further, StorageDelta.deleteLast ∉ block.committed) →
      ∀ stored, object.getCommittedObject = some stored →
        ∃ left, last.getCommittedObject = some left ∧ left.body.type = stored.body.type) ∧
    ∀ calls session, Run (Step cryptoShorthash) (.start object) calls session →
      session.held = 0 → ∃ after, session.object.commitRound = .ok after := by
  have reachable := history_reachable .fresh reached
  refine ⟨?_, ?_, ?_, ?_⟩
  · intro set fee stored
    have kempt := reachable_kempt reachable
    have distinct := history_distinct reached
    have room := history_room reached
    rw [stored] at kempt distinct room
    refine ⟨kempt.sorted, distinct, kempt.bounded, fun exact_sums => ?_⟩
    obtain ⟨started, fits⟩ := room exact_sums
    exact ⟨fits, started⟩
  · intro value fee stored negative
    exact history_negative reached stored negative
  · intro further last onwards kept stored present
    exact history_type reachable onwards kept present
  · intro calls session run closed
    obtain ⟨opening, agreement, ledger⟩ := block_ledger reachable run closed
    exact commit_round_returns ledger.kempt ledger.accounts

end History

/-! ## Limits that wrap around -/

/-- A committed block of limit raises leaves an empty set under the sum of them. -/
theorem raises_settle {cryptoShorthash : CryptoShorthash} {session : Session} {raise : UInt32}
    {count : ℕ} (kept : Kept cryptoShorthash (.onBase none) session) (closed : session.held = 0)
    (committed : session.committed =
      Multiset.replicate (count + 1) (.hashSetIncreaseLimit raise)) :
    ∃ after set, session.object.commitRound = .ok after ∧
      after.getCommittedObject = some { body := .hashSet set, escrowedFee := 0 } ∧
      set.maxSize = UInt32.ofNat
        (min maxHashSetSize ((64 + (count + 1) * raise.toNat) % 2 ^ 64)) := by
  obtain ⟨agreement, accounts⟩ := kept
  rw [closed] at accounts
  have member : StorageDelta.hashSetIncreaseLimit raise ∈ session.committed := by
    rw [committed]
    exact Multiset.mem_replicate.mpr ⟨Nat.succ_ne_zero _, rfl⟩
  have valued := (agreed_value_iff accounts .hashSet).mpr ⟨_, member, rfl⟩
  have undeleted : StorageDelta.deleteLast ∉ session.committed := by
    rw [committed]
    intro deleted
    cases Multiset.eq_of_mem_replicate deleted
  have solvent := accounts.solvent
  rw [live_none] at solvent
  have settles := commit_round_settles accounts
  rw [valued] at settles
  have short := entries_short kempt_none.toTidy solvent
  have made : objectFromDeltaClass .hashSet none =
      .ok { body := .hashSet { hashes := [], maxSize := startHashSetSize }, escrowedFee := 0 } :=
    rfl
  have total_raise : total StorageDelta.limitRaise session.committed =
      (count + 1) * raise.toNat := by
    rw [committed, total_replicate]
    rfl
  simp only [settle, agreedObject, Opening.onBase, made, bind, Except.bind, if_neg undeleted,
    settleBody, settle_hash_set_eq { hashes := [], maxSize := startHashSetSize } short,
    total_raise] at settles
  cases returned : session.object.commitRound with
  | error fault =>
      rw [returned] at settles
      cases settles
  | ok after =>
      rw [returned] at settles
      exact ⟨after, _, rfl, Except.ok.inj settles, rfl⟩

def raiseAndInsert : List Call :=
  [.push .first (.hashSetIncreaseLimit 5), .push .first (.hashSetInsert ⟨4, 1⟩),
    .push .first (.hashSetInsert ⟨9, 3⟩),
    .commit (.granted ⟨true⟩ (.hashSetInsert ⟨4, 1⟩)),
    .commit (.granted ⟨true⟩ (.hashSetIncreaseLimit 5)),
    .commit (.granted ⟨true⟩ (.hashSetInsert ⟨9, 3⟩))]

def insertedSet : HashSet where
  hashes := [⟨9, 3⟩, ⟨4, 1⟩]
  maxSize := 69

theorem committed_stays_well_formed_inserted : ∃ history object,
    ObjectHistory (fun _ => 0) .fresh history object ∧
      object.getCommittedObject = some { body := .hashSet insertedSet, escrowedFee := 0 } ∧
      Normalized insertedSet.hashes ∧ insertedSet.hashes.length ≤ insertedSet.maxSize.toNat := by
  have ended : (raiseAndInsert.foldlM (Session.perform fun _ => 0) (.start .fresh)).bind
      (fun session => session.object.commitRound.toOption.map fun after =>
        (session.held.card, session.committed.map StorageDelta.limitRaise,
          after.getCommittedObject)) =
      some (0, {5, 0, 0}, some { body := .hashSet insertedSet, escrowedFee := 0 }) := by
    decide +kernel
  obtain ⟨session, performed, rest⟩ := Option.bind_eq_some_iff.mp ended
  obtain ⟨after, returned, facts⟩ := Option.map_eq_some_iff.mp rest
  simp only [Prod.mk.injEq] at facts
  obtain ⟨closed, raises, stored⟩ := facts
  have reached := ObjectHistory.finished .start (run_of_fold performed)
    (Multiset.card_eq_zero.mp closed) (to_option_some returned)
  have sums : ∀ block ∈ [FinishedBlock.mk RevertableObject.fresh.getCommittedObject
      session.committed], block.raisedLimit < 2 ^ 64 := by
    rw [List.forall_mem_singleton, FinishedBlock.raisedLimit, total, raises]
    change (limitWord none).toNat + ({5, 0, 0} : Multiset ℕ).sum < 2 ^ 64
    decide
  have formed := (committed_stays_well_formed reached).1 _ 0 stored
  exact ⟨_, after, reached, stored, formed.1, (formed.2.2.2 sums).1⟩

/-- `2 ^ 32 + 1` raises by the largest amount bring the sum of the limits below the first one. -/
theorem limit_wraps : ∃ history object set,
    ObjectHistory (fun _ => 0) .fresh history object ∧
      object.getCommittedObject = some { body := .hashSet set, escrowedFee := 0 } ∧
      set.maxSize = 63 ∧ ¬ startHashSetSize.toNat ≤ set.maxSize.toNat := by
  obtain ⟨calls, session, run, kept, closed, deltas⟩ :=
    repeated_run (fun _ => 0) (.hashSetIncreaseLimit 0xFFFFFFFF) rfl rfl rfl rfl rfl (2 ^ 32 + 1)
  obtain ⟨after, set, returned, stored, limit⟩ := raises_settle kept closed deltas
  have wrapped : set.maxSize = 63 := by
    rw [limit]
    decide
  refine ⟨_, after, set, .finished .start run closed returned, stored, wrapped, ?_⟩
  rw [wrapped]
  decide

end Scs
