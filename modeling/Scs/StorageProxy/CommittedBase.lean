import Scs.Object.Session
import Scs.StorageProxy.LocalView

/-!
# The committed objects that a chain reaches

A key starts absent. Every committed object after that was left by
`commit_round`, so its hash set is in normalized order, its limit is at most
`MAX_HASH_SET_SIZE` and it escrows no fee.
-/

namespace Scs

set_option autoImplicit false

open HashSetEntry Ledger Lockstep Runs Words

/-- The objects of one key: never written, constructed again over what was
committed, or left by the end of an earlier round. -/
inductive ReachableObject (cryptoShorthash : CryptoShorthash) : RevertableObject → Prop
  | fresh : ReachableObject cryptoShorthash .fresh
  | reloaded {object : RevertableObject} (earlier : ReachableObject cryptoShorthash object) :
      ReachableObject cryptoShorthash (.onBase object.getCommittedObject)
  | committed {start after : RevertableObject} {calls : List Call} {session : Session}
      (earlier : ReachableObject cryptoShorthash start)
      (run : Run (Step cryptoShorthash) (.start start) calls session)
      (closed : session.held = 0) (returned : session.object.commitRound = .ok after) :
      ReachableObject cryptoShorthash after
  | rewound {start : RevertableObject} {calls : List Call} {session : Session}
      (earlier : ReachableObject cryptoShorthash start)
      (run : Run (Step cryptoShorthash) (.start start) calls session)
      (closed : session.held = 0) : ReachableObject cryptoShorthash session.object.rewindRound

def ReachableBase (cryptoShorthash : CryptoShorthash) (base : Option StorageObject) : Prop :=
  ∃ object, ReachableObject cryptoShorthash object ∧ object.getCommittedObject = base

/-- A committed object as `commit_round` leaves it. Objects that are loaded from elsewhere
need not be: the constructor checks nothing. -/
structure Kempt (base : Option StorageObject) : Prop extends Tidy base where
  fee : carriedFee base = 0
  implemented : ∀ object, base = some object → object.body.type ≠ .unconstrainedInt64

theorem kempt_none : Kempt none where
  sorted := List.Pairwise.nil
  short := Nat.zero_le _
  bounded := by decide
  fee := rfl
  implemented _ impossible := by cases impossible

theorem start_limit_bounded : startHashSetSize.toNat ≤ maxHashSetSize := by decide

/-- Only hash sets have entries to keep in order. -/
theorem kempt_plain {object : StorageObject} (fee : object.escrowedFee = 0)
    (plain : object.body.type ≠ .hashSet) (implemented : object.body.type ≠ .unconstrainedInt64) :
    Kempt (some object) := by
  obtain ⟨body, escrowedFee⟩ := object
  cases body with
  | hashSet set => exact absurd rfl plain
  | _ =>
      refine ⟨⟨List.Pairwise.nil, Nat.zero_le _, start_limit_bounded⟩, fee, ?_⟩
      intro object same
      cases same
      exact implemented

theorem kempt_hash_set {set : HashSet} (sorted : Normalized set.hashes)
    (short : set.hashes.length ≤ maxHashSetSize) (bounded : set.maxSize.toNat ≤ maxHashSetSize) :
    Kempt (some { body := .hashSet set, escrowedFee := 0 }) := by
  refine ⟨⟨sorted, short, bounded⟩, rfl, ?_⟩
  intro object same
  cases same
  exact fun impossible => by cases impossible

section Settled

variable {opening : Opening} {committed : Multiset StorageDelta} {agreed : StorageObject}
  {value? : Option StorageDeltaClass} {result : Option StorageObject}

theorem opening_limit (opening : Opening) : opening.limit = (limitWord opening.base).toNat := by
  obtain ⟨base, supply⟩ := opening
  unfold Opening.limit limitWord
  rcases base with _ | ⟨body, fee⟩
  · rfl
  · cases body <;> rfl

theorem entries_short (kempt : Tidy opening.base) (solvent : Solvent opening committed committed) :
    (sortedHashes (↑opening.hashes + inserts committed)).length ≤ maxHashSetSize := by
  have short : opening.hashes.length ≤ maxHashSetSize := kempt.short
  have bounded := kempt.bounded
  have limit := opening_limit opening
  rw [sortedHashes, Multiset.length_sort, Multiset.card_add, Multiset.coe_card]
  by_cases empty : inserts committed = 0
  · rw [empty, Multiset.card_zero]
    exact short
  · have room := solvent.room empty
    omega

/-- The set that a round leaves: the merged entries, less what is cleared. -/
theorem settle_hash_set_eq (set : HashSet)
    (short : (sortedHashes (↑set.hashes + inserts committed)).length ≤ maxHashSetSize) :
    settleHashSet set committed = .ok
      { hashes := if 0 < committed.countP (fun delta => delta.isClear = true) then
          (sortedHashes (↑set.hashes + inserts committed)).filter fun entry =>
            entry.index > UInt64.ofNat (committed.map StorageDelta.clearThreshold).sup
        else sortedHashes (↑set.hashes + inserts committed)
        maxSize := UInt32.ofNat (min maxHashSetSize
          ((set.maxSize.toNat + total StorageDelta.limitRaise committed) % 2 ^ 64)) } := by
  unfold settleHashSet
  simp only
  split_ifs with cleared
  · rw [clear_hashset_filter _ (sorted_hashes_normalized _) (below_search_bound short)]
  · rfl

theorem settled_limit_bounded (limit : ℕ) :
    (UInt32.ofNat (min maxHashSetSize limit)).toNat ≤ maxHashSetSize := by
  have capped := Nat.min_le_left maxHashSetSize limit
  rw [UInt32.toNat_ofNat']
  exact (Nat.mod_le _ _).trans capped

theorem object_from_delta_class_start {base : Option StorageObject} {value : StorageDeltaClass}
    (made : objectFromDeltaClass value base = .ok agreed) :
    agreed.escrowedFee = 0 ∧ ∀ set, agreed.body = .hashSet set →
      set.hashes = (Opening.onBase base).hashes ∧ set.maxSize = limitWord base := by
  unfold objectFromDeltaClass at made
  simp only at made
  split_ifs at made
  cases value with
  | rawMemory data =>
      cases made
      exact ⟨rfl, fun _ impossible => by cases impossible⟩
  | nonnegativeInt64 value =>
      cases made
      exact ⟨rfl, fun _ impossible => by cases impossible⟩
  | unconstrainedInt64 setValue delta => cases made
  | hashSet =>
      rcases base with _ | ⟨body, fee⟩
      · cases made
        refine ⟨rfl, fun set same => ?_⟩
        cases same
        exact ⟨rfl, rfl⟩
      · cases body <;> cases made
        refine ⟨rfl, fun set same => ?_⟩
        cases same
        exact ⟨rfl, rfl⟩
  | knownSupplyAsset =>
      rcases base with _ | ⟨body, fee⟩
      · cases made
        exact ⟨rfl, fun _ impossible => by cases impossible⟩
      · cases body <;> cases made
        exact ⟨rfl, fun _ impossible => by cases impossible⟩

theorem agreed_object_start (kempt : Kempt opening.base)
    (made : agreedObject opening.base value? = .ok (some agreed)) :
    agreed.escrowedFee = 0 ∧ ∀ set, agreed.body = .hashSet set →
      set.hashes = opening.hashes ∧ set.maxSize = limitWord opening.base := by
  cases value? with
  | none =>
      obtain ⟨base, supply⟩ := opening
      obtain rfl : base = some agreed := Except.ok.inj made
      refine ⟨kempt.fee, fun set same => ?_⟩
      obtain ⟨body, fee⟩ := agreed
      simp only at same
      subst same
      exact ⟨rfl, rfl⟩
  | some value =>
      obtain ⟨object, from_class, same⟩ := bind_ok_iff.mp made
      cases same
      exact object_from_delta_class_start from_class

theorem settle_kempt (kempt : Kempt opening.base)
    (solvent : Solvent opening committed committed)
    (settled : settle opening value? committed = .ok result) : Kempt result := by
  obtain ⟨start, made, rest⟩ := bind_ok_iff.mp settled
  cases start with
  | none =>
      cases rest
      exact kempt_none
  | some agreed =>
      obtain ⟨fee, opened⟩ := agreed_object_start kempt made
      simp only at rest
      split_ifs at rest with deleted
      · cases rest
        exact kempt_none
      · obtain ⟨object, finished, same⟩ := bind_ok_iff.mp rest
        cases same
        obtain ⟨body, escrowedFee⟩ := agreed
        obtain rfl : escrowedFee = 0 := fee
        cases body with
        | rawMemoryStorage raw =>
            cases finished
            exact kempt_plain rfl (fun impossible => by cases impossible)
              (fun impossible => by cases impossible)
        | nonnegativeInt64 value =>
            cases finished
            exact kempt_plain rfl (fun impossible => by cases impossible)
              (fun impossible => by cases impossible)
        | unconstrainedInt64 value => cases finished
        | asset stored =>
            cases finished
            exact kempt_plain rfl (fun impossible => by cases impossible)
              (fun impossible => by cases impossible)
        | hashSet set =>
            obtain ⟨hashes, limit⟩ := opened set rfl
            have short := entries_short kempt.toTidy solvent
            rw [← hashes] at short
            obtain ⟨left, cleared, same⟩ := bind_ok_iff.mp finished
            rw [settle_hash_set_eq set short] at cleared
            cases cleared
            cases same
            apply kempt_hash_set
            · simp only
              split_ifs
              · exact filter_normalized (sorted_hashes_normalized _) _
              · exact sorted_hashes_normalized _
            · simp only
              split_ifs
              · exact (List.length_filter_le _ _).trans short
              · exact short
            · exact settled_limit_bounded _

theorem object_from_delta_class_returns {base : Option StorageObject} {value : StorageDeltaClass}
    (typed : ∀ stored, base = some stored → stored.body.type = value.type)
    (implemented : ∀ setValue delta, value ≠ .unconstrainedInt64 setValue delta) :
    ∃ object, objectFromDeltaClass value base = .ok object := by
  unfold objectFromDeltaClass
  rcases base with _ | stored
  · cases value with
    | unconstrainedInt64 setValue delta => exact absurd rfl (implemented setValue delta)
    | _ => exact ⟨_, rfl⟩
  · have same := typed stored rfl
    simp only [same, ne_eq, not_true_eq_false, decide_false, Bool.false_eq_true, if_false]
    obtain ⟨body, fee⟩ := stored
    cases value with
    | unconstrainedInt64 setValue delta => exact absurd rfl (implemented setValue delta)
    | rawMemory data => exact ⟨_, rfl⟩
    | nonnegativeInt64 value => exact ⟨_, rfl⟩
    | hashSet => cases body <;> first | exact ⟨_, rfl⟩ | cases same
    | knownSupplyAsset => cases body <;> first | exact ⟨_, rfl⟩ | cases same

theorem class_implemented {delta : StorageDelta} {value : StorageDeltaClass}
    (classed : delta.class? = some value) : value.type ≠ .unconstrainedInt64 := by
  intro unconstrained
  cases delta <;> cases classed <;> cases unconstrained

theorem agreed_object_returns {cryptoShorthash : CryptoShorthash} {agreement : Agreement}
    {object : RevertableObject}
    (accounts : Accounts cryptoShorthash opening 0 committed agreement object) :
    ∃ start, agreedObject opening.base agreement.value? = .ok start := by
  cases valued : agreement.value? with
  | none => exact ⟨_, rfl⟩
  | some value =>
      obtain ⟨delta, member, classed⟩ := value_backed accounts valued
      have allowed := accounts.solvent.allowed delta member value classed
      have made : ∃ start, objectFromDeltaClass value opening.base = .ok start := by
        apply object_from_delta_class_returns
        · intro stored same
          apply (allowed stored.body.type _).symm
          rw [Opening.requiredType, same]
          rfl
        · rintro setValue change rfl
          exact (class_implemented classed) rfl
      obtain ⟨start, made⟩ := made
      exact ⟨some start, bind_ok_iff.mpr ⟨start, made, rfl⟩⟩

theorem agreed_object_implemented {cryptoShorthash : CryptoShorthash} {agreement : Agreement}
    {object : RevertableObject} (kempt : Kempt opening.base)
    (accounts : Accounts cryptoShorthash opening 0 committed agreement object)
    (made : agreedObject opening.base agreement.value? = .ok (some agreed)) :
    agreed.body.type ≠ .unconstrainedInt64 := by
  cases valued : agreement.value? with
  | none =>
      rw [valued] at made
      exact kempt.implemented agreed (Except.ok.inj made)
  | some value =>
      have type := agreed_object_type made
      rw [valued] at type
      obtain ⟨delta, _, classed⟩ := value_backed accounts valued
      rw [Option.some.inj type]
      exact class_implemented classed

theorem commit_round_returns {cryptoShorthash : CryptoShorthash} {agreement : Agreement}
    {object : RevertableObject} (kempt : Kempt opening.base)
    (accounts : Accounts cryptoShorthash opening 0 committed agreement object) :
    ∃ after, object.commitRound = .ok after := by
  have settles := commit_round_settles accounts
  have settled : ∃ result, settle opening agreement.value? committed = .ok result := by
    obtain ⟨start, made⟩ := agreed_object_returns accounts
    unfold settle
    rw [made]
    simp only [bind, Except.bind]
    cases start with
    | none => exact ⟨none, rfl⟩
    | some agreed =>
        simp only
        split_ifs
        · exact ⟨none, rfl⟩
        · have body : ∃ finished, settleBody opening committed agreed = .ok finished := by
            have implemented := agreed_object_implemented kempt accounts made
            obtain ⟨_, opened⟩ := agreed_object_start kempt made
            have solvent := accounts.solvent
            rw [live_none] at solvent
            obtain ⟨body, escrowedFee⟩ := agreed
            cases body with
            | unconstrainedInt64 value => exact absurd rfl implemented
            | hashSet set =>
                obtain ⟨hashes, _⟩ := opened set rfl
                have short := entries_short kempt.toTidy solvent
                rw [← hashes] at short
                simp only [settleBody, settle_hash_set_eq set short]
                exact ⟨_, rfl⟩
            | _ => exact ⟨_, rfl⟩
          obtain ⟨finished, returned⟩ := body
          rw [returned]
          exact ⟨some finished, rfl⟩
  obtain ⟨result, settled⟩ := settled
  rw [settled] at settles
  cases returned : object.commitRound with
  | error fault =>
      rw [returned] at settles
      cases settles
  | ok after => exact ⟨after, rfl⟩

end Settled

section Reachable

variable {cryptoShorthash : CryptoShorthash}

theorem reachable_at_round_start {object : RevertableObject}
    (reachable : ReachableObject cryptoShorthash object) : AtRoundStart cryptoShorthash object := by
  induction reachable with
  | fresh => exact .constructed none
  | reloaded _ _ => exact .constructed _
  | committed _ run closed returned induction => exact .committed induction run closed returned
  | rewound _ run closed induction => exact .rewound induction run closed

theorem reachable_kempt {object : RevertableObject}
    (reachable : ReachableObject cryptoShorthash object) : Kempt object.getCommittedObject := by
  induction reachable with
  | fresh => exact kempt_none
  | @reloaded object _ induction =>
      cases stored : object.getCommittedObject with
      | none => exact kempt_none
      | some base =>
          rw [stored] at induction
          exact induction
  | @committed start after calls session earlier run closed returned induction =>
      obtain ⟨opening, same, started⟩ := at_round_start (reachable_at_round_start earlier)
      obtain ⟨agreement, accounts⟩ := run_kept started run
      rw [closed] at accounts
      have solvent := accounts.solvent
      rw [live_none] at solvent
      have settles := commit_round_settles accounts
      rw [returned] at settles
      apply settle_kempt _ solvent settles.symm
      rw [same]
      exact induction
  | @rewound start calls session earlier run closed induction =>
      obtain ⟨opening, same, started⟩ := at_round_start (reachable_at_round_start earlier)
      obtain ⟨agreement, accounts⟩ := run_kept started run
      have kept : session.object.rewindRound.getCommittedObject = opening.base :=
        accounts.booked.committedBase
      rw [kept, same]
      exact induction

end Reachable

end Scs
