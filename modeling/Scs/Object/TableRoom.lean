import Scs.HashSet.SlotCounts
import Scs.Object.Deletion
import Scs.StorageProxy.CommittedBase

/-!
# Room in the new-hash table

The limit of a hash set is a 64-bit sum capped at `MAX_HASH_SET_SIZE`. Its table
is sized by the same sum uncapped, truncated to 32 bits, and never shrinks. The
history of an object is followed block by block, to where the two part.
-/

namespace Scs

set_option autoImplicit false

open Ledger Lockstep Runs Words

/-! ## What the limit promises -/

def Call.RevertsInsert : Call → Prop
  | .revert _ rewind => rewind.delta.inserted? ≠ none
  | _ => False

def ForwardStep (cryptoShorthash : CryptoShorthash) (session : Session) (call : Call)
    (next : Session) : Prop :=
  Step cryptoShorthash session call next ∧ ¬ call.RevertsInsert

/-- As many slots as the limit that insertions are checked against. -/
def Covers (object : RevertableObject) : Prop :=
  ∀ hashes maxSize, object.committedHashes = .ok (hashes, maxSize) →
    maxSize.toNat ≤ object.newHashes.capacity.toNat

/-- The table has a slot for every hash that the limit admits: as many slots as the
limit, and one for each new insertion within it as long as none was reverted. The
insertion is one of a thread that has an entry left. -/
structure HasRoom (cryptoShorthash : CryptoShorthash) (object : RevertableObject) : Prop where
  covers : Covers object
  admits : ∀ calls session, Run (ForwardStep cryptoShorthash) (.start object) calls session →
    ∀ hashes maxSize, session.object.committedHashes = .ok (hashes, maxSize) →
    hashes.length + (session.object.numNewElts + 1).toNat ≤ maxSize.toNat →
    ∀ hash, hash ∉ session.object.newHashes.getHashes → ∀ allocated < allocSize,
      ∃ changed, session.object.newHashes.tryInsert cryptoShorthash allocated hash =
        .ok (true, allocated + 1, changed)

theorem committed_hashes_base {object : RevertableObject} {hashes : List HashSetEntry}
    {maxSize : UInt32} (read : object.committedHashes = .ok (hashes, maxSize)) :
    maxSize = limitWord object.committedBase := by
  unfold RevertableObject.committedHashes at read
  unfold limitWord
  generalize object.committedBase = base at read ⊢
  rcases base with _ | ⟨body, fee⟩
  · cases read
    rfl
  · cases body <;> cases read
    rfl

section Block

variable {cryptoShorthash : CryptoShorthash} {opening : Opening} {object : RevertableObject}

def SlotsCounted (capacity : ℕ) (session : Session) : Prop :=
  session.object.newHashes.freeSlots + (inserts session.live).card = capacity

theorem forward_slots_counted {capacity : ℕ} {session next : Session} {call : Call}
    (kept : Kept cryptoShorthash opening session) (counted : SlotsCounted capacity session)
    (step : ForwardStep cryptoShorthash session call next) : SlotsCounted capacity next := by
  obtain ⟨agreement, accounts⟩ := kept
  obtain ⟨step, forward⟩ := step
  unfold SlotsCounted Session.live at counted ⊢
  cases step_cases step with
  | @accept ids delta rewind after returned =>
      have outcome := push_outcome accounts delta ids
      rw [returned] at outcome
      cases outcome with
      | accepted pushed =>
          have slots := pushed.freeSlots
          simp only [live_cons, pushed.own, card_inserts_cons]
          omega
  | @reject ids delta after returned =>
      have outcome := push_outcome accounts delta ids
      rw [returned] at outcome
      cases outcome with
      | rejected rejected reason =>
          rw [rejected.unchanged]
          exact counted
  | @commit rewind rest after opened returned =>
      rw [opened] at accounts counted
      obtain ⟨result, committed, _, table⟩ := rewind_commit_spec accounts
      rw [returned] at committed
      cases committed
      simp only [live_cons] at counted
      simp only [live_committed, table]
      exact counted
  | @revert newId rewind rest after opened returned =>
      rw [opened] at accounts counted
      have plain : rewind.delta.inserted? = none := not_not.mp forward
      rcases rewind_destroy_spec accounts newId with ⟨_, _, spins⟩ | ⟨result, destroyed, spec⟩
      · rw [returned] at spins
        cases spins
      · rw [returned] at destroyed
        cases destroyed
        simp only [live_cons, inserts_skip plain] at counted
        simp only [spec.freeSlots]
        exact counted

theorem forward_run_counted {calls : List Call} {session : Session}
    (started : RoundStart cryptoShorthash opening object)
    (run : Run (ForwardStep cryptoShorthash) (.start object) calls session) :
    Kept cryptoShorthash opening session ∧
      SlotsCounted object.newHashes.capacity.toNat session := by
  refine run_invariant (fun session => Kept cryptoShorthash opening session ∧
    SlotsCounted object.newHashes.capacity.toNat session) ?_ ⟨kept_start started, ?_⟩ run
  · intro before call next ⟨kept, counted⟩ step
    exact ⟨step_kept before call next kept step.1, forward_slots_counted kept counted step⟩
  · exact started.vacant

theorem has_room_of_covers (started : RoundStart cryptoShorthash opening object)
    (covers : Covers object) (bounded : (limitWord object.committedBase).toNat < firstTruncated) :
    HasRoom cryptoShorthash object where
  covers := covers
  admits calls session run hashes maxSize read fits hash absent allocated served := by
    obtain ⟨⟨agreement, accounts⟩, counted⟩ := forward_run_counted started run
    have booked := accounts.booked
    have base : session.object.committedBase = object.committedBase :=
      booked.committedBase.trans started.accounts.booked.committedBase.symm
    have same : session.object.committedHashes = object.committedHashes := by
      unfold RevertableObject.committedHashes
      rw [base]
    have enough := covers hashes maxSize (same ▸ read)
    have limit := committed_hashes_base read
    rw [base] at limit
    rw [← limit] at bounded
    unfold firstTruncated at bounded
    have live : (inserts session.live).card ≤ maxSize.toNat := by
      by_cases none_live : inserts session.live = 0
      · rw [none_live]
        exact Nat.zero_le _
      · have room := accounts.solvent.room none_live
        rw [opening_limit, ← booked.committedBase, base, ← limit] at room
        unfold Session.live
        omega
    have counter := booked.counted
    have one : (1 : UInt32).toNat = 1 := rfl
    rw [UInt32.toNat_add, one, counter] at fits
    have accepts : (session.object.newHashes.insertAllocated cryptoShorthash hash).1 = true := by
      rw [AtomicSet.insert_allocated_accepts booked.sound]
      refine ⟨absent, ?_⟩
      unfold SlotsCounted Session.live at counted
      unfold Session.live at live
      omega
    rw [AtomicSet.try_insert_returns served, accepts]
    exact ⟨_, rfl⟩

end Block

/-! ## One block after another -/

/-- How a block ends: with `commit_round` on an object, or undone. -/
inductive RoundEnd where
  | commits (ending : RevertableObject)
  | rewinds

inductive RoundStep (cryptoShorthash : CryptoShorthash) :
    RevertableObject → RoundEnd → RevertableObject → Prop
  | commits {object after : RevertableObject} {calls : List Call} {session : Session}
      (run : Run (Step cryptoShorthash) (.start object) calls session)
      (closed : session.held = 0) (kept : .deleteLast ∉ session.committed)
      (returned : session.object.commitRound = .ok after) :
      RoundStep cryptoShorthash object (.commits session.object) after
  | rewinds {object : RevertableObject} {calls : List Call} {session : Session}
      (run : Run (Step cryptoShorthash) (.start object) calls session) :
      RoundStep cryptoShorthash object .rewinds session.object.rewindRound

/-- The sum that a limit is raised to stays within the largest size, or the table has
or gets a slot for every entry of a set of that size. -/
def RaiseFits (object : RevertableObject) : Prop :=
  ∀ hashes maxSize, object.committedHashes = .ok (hashes, maxSize) →
    let newSize := object.sizeIncrease + maxSize.toUInt64
    0 < object.sizeIncrease.toNat → maxHashSetSize < newSize.toNat →
      maxHashSetSize ≤ object.newHashes.capacity.toNat ∨ SlotsForLargest newSize.toUInt32

def RoundEnd.Fits : RoundEnd → Prop
  | .commits ending => RaiseFits ending
  | .rewinds => True

def BaseFits (base : Option StorageObject) : Prop :=
  (limitWord base).toNat < firstTruncated

section Rounds

variable {cryptoShorthash : CryptoShorthash} {opening : Opening}
  {object start after : RevertableObject} {committed : Multiset StorageDelta}
  {agreement : Agreement}

/-- The slots after `finish_table`: the old ones, or as many as the sum gets. -/
theorem finish_table_capacity (object : RevertableObject) (set : HashSet) :
    (object.finishTable set).capacity.toNat =
      if 0 < object.sizeIncrease.toNat then
        max object.newHashes.capacity.toNat
          (withExtraBuffer (object.sizeIncrease + set.maxSize.toUInt64).toUInt32).toNat
      else object.newHashes.capacity.toNat := by
  unfold RevertableObject.finishTable
  simp only [gt_iff_lt, UInt64.lt_iff_toNat_lt, UInt64.toNat_zero]
  split_ifs with raised
  · exact resize_capacity _ object.newHashes
  · rfl

/-- The capped sum is covered after a round exactly when the raise fits. -/
theorem finish_table_covers_iff (set : HashSet)
    (covered : set.maxSize.toNat ≤ object.newHashes.capacity.toNat) :
    min maxHashSetSize (object.sizeIncrease + set.maxSize.toUInt64).toNat ≤
        (object.finishTable set).capacity.toNat ↔
      (0 < object.sizeIncrease.toNat →
        maxHashSetSize < (object.sizeIncrease + set.maxSize.toUInt64).toNat →
        maxHashSetSize ≤ object.newHashes.capacity.toNat ∨
          SlotsForLargest (object.sizeIncrease + set.maxSize.toUInt64).toUInt32) := by
  rw [finish_table_capacity, ← slots_for_largest_iff]
  split_ifs with raised
  · rcases Nat.lt_or_ge maxHashSetSize (object.sizeIncrease + set.maxSize.toUInt64).toNat with
      above | within
    · rw [Nat.min_eq_left above.le, le_max_iff]
      constructor
      · exact fun enough _ _ => enough
      · exact fun fits => fits raised above
    · have small : (object.sizeIncrease + set.maxSize.toUInt64).toUInt32.toNat =
          (object.sizeIncrease + set.maxSize.toUInt64).toNat := by
        rw [UInt64.toNat_toUInt32]
        apply Nat.mod_eq_of_lt
        unfold maxHashSetSize at within
        omega
      have slots := with_extra_buffer_ge (small.trans_le within)
      rw [small] at slots
      rw [Nat.min_eq_right within]
      constructor
      · exact fun _ _ above => absurd above (Nat.not_lt.mpr within)
      · exact fun _ => slots.trans (Nat.le_max_right _ _)
  · have unraised : object.sizeIncrease = 0 :=
      UInt64.toNat_inj.mp (Nat.eq_zero_of_not_pos raised)
    rw [unraised, UInt64.zero_add, UInt32.toNat_toUInt64]
    constructor
    · exact fun _ impossible => absurd impossible (Nat.lt_irrefl 0)
    · exact fun _ => (Nat.min_le_right _ _).trans covered

/-- The limit that a round starts from is the one that its insertions were checked
against. -/
theorem agreed_set_read {value? : Option StorageDeltaClass} {set : HashSet} {fee : UInt64}
    (made : agreedObject object.committedBase value? =
      .ok (some { body := .hashSet set, escrowedFee := fee })) :
    ∃ hashes, object.committedHashes = .ok (hashes, set.maxSize) := by
  unfold RevertableObject.committedHashes
  generalize object.committedBase = base at made
  rcases base with _ | stored
  · cases value? with
    | none => cases made
    | some value =>
        obtain ⟨fromClass, from_class, same⟩ := bind_ok_iff.mp made
        cases same
        have limit := ((object_from_delta_class_start from_class).2 set rfl).2
        exact ⟨[], congrArg (fun limit => Except.ok ([], limit)) limit.symm⟩
  · have type := (agreed_object_plain made).1
    obtain ⟨body, storedFee⟩ := stored
    cases body with
    | hashSet storedSet =>
        refine ⟨storedSet.hashes, congrArg (fun limit => Except.ok (_, limit)) ?_⟩
        cases value? with
        | none =>
            cases made
            rfl
        | some value =>
            obtain ⟨fromClass, from_class, same⟩ := bind_ok_iff.mp made
            cases same
            exact ((object_from_delta_class_start from_class).2 set rfl).2.symm
    | _ => cases type

/-- Only a round that agrees on a hash set raises a limit. -/
theorem fits_of_plain (accounts : Accounts cryptoShorthash opening 0 committed agreement object)
    (plain : agreement.value? ≠ some .hashSet) : RaiseFits object := by
  have limit := accounts.booked.limit
  rw [live_none] at limit
  have unraised : total StorageDelta.limitRaise committed = 0 := by
    apply total_eq_zero
    intro delta member
    cases delta with
    | hashSetIncreaseLimit limitIncrease =>
        exact absurd ((agreed_value_iff accounts .hashSet).mpr ⟨_, member, rfl⟩) plain
    | _ => rfl
  intro hashes maxSize _ newSize raised
  omega

theorem covers_of_plain {stored : StorageObject} (base : object.committedBase = some stored)
    (plain : stored.body.type ≠ .hashSet) :
    Covers object ∧ limitWord object.committedBase = startHashSetSize := by
  unfold Covers RevertableObject.committedHashes
  rw [base]
  obtain ⟨body, fee⟩ := stored
  cases body with
  | hashSet set => exact absurd rfl plain
  | _ =>
      refine ⟨?_, rfl⟩
      intro hashes maxSize read
      cases read

theorem covers_congr {left right : RevertableObject}
    (base : left.committedBase = right.committedBase)
    (slots : left.newHashes.capacity = right.newHashes.capacity) :
    Covers left ↔ Covers right := by
  unfold Covers RevertableObject.committedHashes
  rw [base, slots]

/-- The switch of `commit_round` leaves enough slots exactly when the raise fits. -/
theorem finish_set_covers_iff {set : HashSet} {fee : UInt64} {finished : RevertableObject}
    (read : ∃ hashes, object.committedHashes = .ok (hashes, set.maxSize))
    (covers : Covers object)
    (done : object.finishBase { body := .hashSet set, escrowedFee := fee } = .ok finished) :
    (Covers finished ↔ RaiseFits object) ∧
      (limitWord finished.committedBase).toNat ≤ maxHashSetSize := by
  obtain ⟨hashes, read⟩ := read
  obtain ⟨settled, cleared, same⟩ := bind_ok_iff.mp done
  cases same
  have capped : settled.maxSize.toNat =
      min maxHashSetSize (object.sizeIncrease + set.maxSize.toUInt64).toNat := by
    have cap : (UInt64.ofNat maxHashSetSize).toNat = maxHashSetSize := rfl
    have most := Nat.min_le_left maxHashSetSize (object.sizeIncrease + set.maxSize.toUInt64).toNat
    rw [finish_hash_set_limit cleared, UInt64.toNat_toUInt32, uint64_min_eq, cap]
    apply Nat.mod_eq_of_lt
    unfold maxHashSetSize at most ⊢
    omega
  constructor
  · have slots := finish_table_covers_iff set (covers hashes set.maxSize read)
    rw [← capped] at slots
    constructor
    · intro enough hashes' maxSize read'
      rw [read] at read'
      cases read'
      exact slots.mp (enough settled.hashes settled.maxSize rfl)
    · intro fits hashes' maxSize read'
      cases read'
      exact slots.mpr (fits hashes set.maxSize read)
  · exact capped.trans_le (Nat.min_le_left _ _)

/-- A block that commits leaves enough slots exactly when its raise fits. The slots are
resized by the sum before the cap, narrowed to 32 bits. -/
theorem commit_round_covers_iff
    (accounts : Accounts cryptoShorthash opening 0 committed agreement object)
    (kept : .deleteLast ∉ committed) (covers : Covers object)
    (returned : object.commitRound = .ok after) :
    (Covers after ↔ RaiseFits object) ∧
      (limitWord after.committedBase).toNat ≤ maxHashSetSize := by
  have booked := accounts.booked
  have deleted := booked.deleted.not.mpr kept
  rw [commit_round_eq, booked.committedBase, accounts.represents.obj] at returned
  obtain ⟨start, made, rest⟩ := bind_ok_iff.mp returned
  cases start with
  | none =>
      obtain ⟨absent, unset⟩ := agreed_object_none made
      have base : object.committedBase = none := booked.committedBase.trans absent
      have plain : agreement.value? ≠ some .hashSet := by
        rw [unset]
        exact (Option.some_ne_none _).symm
      cases rest
      have same : Covers (atSwitch object none).clearMods ↔ Covers object :=
        covers_congr base.symm rfl
      exact ⟨iff_of_true (same.mpr covers) (fits_of_plain accounts plain), start_limit_bounded⟩
  | some agreed =>
      simp only [deleted] at rest
      obtain ⟨finished, switched, same⟩ := bind_ok_iff.mp rest
      cases same
      rw [finish_base_at_switch] at switched
      cases done : object.finishBase agreed with
      | error fault =>
          rw [done] at switched
          cases switched
      | ok settled =>
          rw [done] at switched
          cases switched
          by_cases set : agreed.body.type = .hashSet
          · obtain ⟨body, fee⟩ := agreed
            rw [← booked.committedBase] at made
            cases body with
            | hashSet set =>
                have left := finish_set_covers_iff (agreed_set_read made) covers done
                exact ⟨(covers_congr rfl rfl).trans left.1, left.2⟩
            | _ => cases set
          · obtain ⟨stored, base, type⟩ := Option.map_eq_some_iff.mp (finish_base_type done).2
            have plain : agreement.value? ≠ some .hashSet := by
              intro valued
              have agreedType := agreed_object_type made
              rw [valued] at agreedType
              exact set (Option.some.inj agreedType)
            obtain ⟨unread, limit⟩ := covers_of_plain base (type.trans_ne set)
            have bounded : (limitWord settled.committedBase).toNat ≤ maxHashSetSize :=
              limit.symm ▸ start_limit_bounded
            have same : Covers _ ↔ Covers settled := covers_congr rfl rfl
            exact ⟨iff_of_true (same.mpr unread) (fits_of_plain accounts plain), bounded⟩

/-- An object at the start of a block whose limit was not truncated away. -/
structure ReadyObject (cryptoShorthash : CryptoShorthash) (object : RevertableObject) : Prop where
  started : ∃ opening, RoundStart cryptoShorthash opening object
  bounded : (limitWord object.committedBase).toNat < firstTruncated

theorem ReadyObject.has_room_iff (ready : ReadyObject cryptoShorthash object) :
    HasRoom cryptoShorthash object ↔ Covers object := by
  obtain ⟨⟨opening, started⟩, bounded⟩ := ready
  constructor
  · exact fun room => room.covers
  · exact fun covers => has_room_of_covers started covers bounded

/-- A block that is undone leaves enough slots, one that commits when its raise fits. -/
theorem round_step_covers_iff {ending : RoundEnd} (ready : ReadyObject cryptoShorthash object)
    (covers : Covers object) (step : RoundStep cryptoShorthash object ending after) :
    ReadyObject cryptoShorthash after ∧ (Covers after ↔ ending.Fits) := by
  obtain ⟨⟨opening, started⟩, bounded⟩ := ready
  have opened := started.accounts.booked.committedBase
  cases step with
  | @commits _ calls session run closed kept returned =>
      obtain ⟨agreement, accounts⟩ := run_kept started run
      have base := accounts.booked.committedBase.trans opened.symm
      have unchanged := (covers_congr base (run_capacity run)).mpr covers
      rw [closed] at accounts
      obtain ⟨next, _, nextStarted⟩ := commit_round_start accounts returned
      obtain ⟨left, capped⟩ := commit_round_covers_iff accounts kept unchanged returned
      have small : maxHashSetSize < firstTruncated := by decide
      exact ⟨⟨⟨next, nextStarted⟩, capped.trans_lt small⟩, left⟩
  | @rewinds calls session run =>
      obtain ⟨agreement, accounts⟩ := run_kept started run
      have base : session.object.rewindRound.committedBase = object.committedBase :=
        accounts.booked.committedBase.trans opened.symm
      refine ⟨⟨⟨_, rewind_round_start accounts⟩, ?_⟩, ?_⟩
      · rw [base]
        exact bounded
      · exact iff_of_true ((covers_congr base (run_capacity run)).mpr covers) trivial

theorem on_base_covers_iff (base : Option StorageObject) :
    Covers (.onBase base) ↔ BaseFits base := by
  have small : startHashSetSize.toNat < firstTruncated := by decide
  rcases base with _ | ⟨body, fee⟩
  · apply iff_of_true _ small
    intro hashes maxSize read
    cases read
    decide
  · by_cases typed : body.type = .hashSet
    · cases body with
      | hashSet set =>
          have slots : (RevertableObject.onBase
              (some { body := .hashSet set, escrowedFee := fee })).newHashes =
                .vacant (withExtraBuffer set.maxSize) := resize_create_vacant set.maxSize
          unfold Covers
          rw [slots, AtomicSet.vacant_capacity]
          unfold BaseFits limitWord
          rw [← with_extra_buffer_covers_iff]
          constructor
          · exact fun covers => covers set.hashes set.maxSize rfl
          · intro enough hashes maxSize read
            cases read
            exact enough
      | _ => cases typed
    · have plain : (RevertableObject.onBase (some { body, escrowedFee := fee })).committedBase =
          some { body, escrowedFee := fee } := rfl
      obtain ⟨covers, limit⟩ := covers_of_plain plain typed
      apply iff_of_true covers
      unfold BaseFits
      rw [← plain, limit]
      exact small

theorem ready_on_base (cryptoShorthash : CryptoShorthash) {base : Option StorageObject}
    (fits : BaseFits base) : ReadyObject cryptoShorthash (.onBase base) := by
  refine ⟨⟨_, round_start_over cryptoShorthash base⟩, ?_⟩
  cases base <;> exact fits

theorem run_has_room {ends : List RoundEnd} (ready : ReadyObject cryptoShorthash start)
    (covers : Covers start) (run : Run (RoundStep cryptoShorthash) start ends object)
    (fits : ∀ ending ∈ ends, ending.Fits) :
    Run (fun before ending after =>
      RoundStep cryptoShorthash before ending after ∧ HasRoom cryptoShorthash after)
      start ends object := by
  induction run with
  | nil state => exact .nil state
  | cons first _ induction =>
      rw [List.forall_mem_cons] at fits
      obtain ⟨next, left⟩ := round_step_covers_iff ready covers first
      have enough := left.mpr fits.1
      exact .cons ⟨first, next.has_room_iff.mpr enough⟩ (induction next enough fits.2)

theorem run_fits {ends : List RoundEnd} (ready : ReadyObject cryptoShorthash start)
    (covers : Covers start)
    (run : Run (fun before ending after =>
      RoundStep cryptoShorthash before ending after ∧ HasRoom cryptoShorthash after)
      start ends object) : ∀ ending ∈ ends, ending.Fits := by
  induction run with
  | nil state => exact fun ending impossible => absurd impossible List.not_mem_nil
  | cons first _ induction =>
      obtain ⟨step, room⟩ := first
      obtain ⟨next, left⟩ := round_step_covers_iff ready covers step
      rw [List.forall_mem_cons]
      exact ⟨left.mp room.covers, induction next room.covers⟩

end Rounds

/-- In every state of a history without deletion the new-hash table has room for what
the limit admits, exactly when no raise in it left the table behind. -/
theorem table_has_room_iff (cryptoShorthash : CryptoShorthash) (base : Option StorageObject)
    (ends : List RoundEnd) (object : RevertableObject)
    (run : Run (RoundStep cryptoShorthash) (.onBase base) ends object) :
    (HasRoom cryptoShorthash (.onBase base) ∧
      Run (fun before ending after =>
        RoundStep cryptoShorthash before ending after ∧ HasRoom cryptoShorthash after)
        (.onBase base) ends object) ↔
    BaseFits base ∧ ∀ ending ∈ ends, ending.Fits := by
  constructor
  · rintro ⟨room, rooms⟩
    have fits := (on_base_covers_iff base).mp room.covers
    exact ⟨fits, run_fits (ready_on_base cryptoShorthash fits) room.covers rooms⟩
  · rintro ⟨fits, raises⟩
    have covers := (on_base_covers_iff base).mpr fits
    have ready := ready_on_base cryptoShorthash fits
    exact ⟨ready.has_room_iff.mpr covers, run_has_room ready covers run raises⟩

/-- A new hash set at the end of a block that raised its limit by one delta. -/
def raisedSet (limitIncrease : UInt32) : RevertableObject :=
  { RevertableObject.fresh with
    baseObj := { tag := 0x10101, obj := some .hashSet, requiredType := none }
    sizeIncrease := 0 + limitIncrease.toUInt64 }

def bareSet (capacity maxSize : UInt32) : RevertableObject :=
  { RevertableObject.fresh with
    baseObj := { tag := 0, obj := none, requiredType := some .hashSet }
    newHashes := .vacant capacity
    committedBase := some { body := .hashSet { hashes := [], maxSize }, escrowedFee := 0 } }

theorem raise_run (cryptoShorthash : CryptoShorthash) (limitIncrease : UInt32) :
    Run (Step cryptoShorthash) (.start (.onBase none))
      [.push .first (.hashSetIncreaseLimit limitIncrease),
        .commit (.granted { doRevert := true } (.hashSetIncreaseLimit limitIncrease))]
      { object := raisedSet limitIncrease
        held := 0
        committed := {.hashSetIncreaseLimit limitIncrease} } := by
  have pushed : Step cryptoShorthash (.start (.onBase none))
      (.push .first (.hashSetIncreaseLimit limitIncrease))
      { object :=
          { raisedSet limitIncrease with
            baseObj := { tag := 0x10100, obj := some .hashSet, requiredType := none } }
        held := {.granted { doRevert := true } (.hashSetIncreaseLimit limitIncrease)}
        committed := 0 } := rfl
  refine .cons pushed (.cons ?_ (.nil _))
  unfold Step Session.perform
  simp only [Multiset.mem_singleton, if_true, Multiset.erase_singleton, DeltaRewind.commit,
    DeltaRewind.granted, RevertableObject.commitDelta, bind, Except.bind, Rewind.commit]
  rfl

theorem raise_step {limitIncrease capacity maxSize : UInt32}
    (returned : (raisedSet limitIncrease).commitRound = .ok (bareSet capacity maxSize)) :
    RoundStep (fun _ => 0) (.onBase none) (.commits (raisedSet limitIncrease))
      (bareSet capacity maxSize) := by
  refine .commits (raise_run _ limitIncrease) rfl ?_ returned
  simp only [Multiset.mem_singleton]
  exact StorageDelta.noConfusion

/-- A first limit raised by a hundred. -/
theorem table_has_room_raised :
    Run (fun before ending after =>
        RoundStep (fun _ => 0) before ending after ∧ HasRoom (fun _ => 0) after)
      (.onBase none) [.commits (raisedSet 100)] (bareSet 196 164) := by
  have run : Run (RoundStep fun _ => 0) (.onBase none) [.commits (raisedSet 100)]
      (bareSet 196 164) := .cons (raise_step rfl) (.nil _)
  have constructed : BaseFits none := by
    unfold BaseFits
    decide
  refine ((table_has_room_iff (fun _ => 0) none _ _ run).mpr ⟨constructed, ?_⟩).2
  rw [List.forall_mem_singleton]
  intro hashes maxSize read newSize _ above
  cases read
  exact absurd above (by decide)

/-- One raise that brings the sum to `2 ^ 32`: the limit becomes the largest one, and the
table stays at its first size. -/
theorem raise_outgrows_table :
    Run (RoundStep fun _ => 0) (.onBase none) [.commits (raisedSet 0xFFFFFFC0)]
      (bareSet 76 65535) ∧ ¬ HasRoom (fun _ => 0) (bareSet 76 65535) := by
  refine ⟨.cons (raise_step rfl) (.nil _), fun room => ?_⟩
  exact absurd (room.covers [] 65535 rfl) (by decide)

end Scs
