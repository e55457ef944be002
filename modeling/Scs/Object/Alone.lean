import Scs.Object.IndexUse
import Scs.Object.Round

/-!
# One transaction alone on one object

`Room` says when a list of deltas fits on top of what is open and committed.
Alone on an object, a transaction is accepted in full exactly when it has room.
-/

namespace Scs

set_option autoImplicit false

open Ledger

variable (cryptoShorthash : CryptoShorthash)

/-- Pushes the deltas in order and keeps the rewinds open, up to the first rejection, on a
thread that has allocated so many entries. -/
def pushDeltas : ℕ → List (CallIds × StorageDelta) → RevertableObject →
    Except Fault (Bool × List DeltaRewind × RevertableObject)
  | _, [], object => .ok (true, [], object)
  | allocated, (ids, delta) :: rest, object => do
      let (answer, after) ← object.tryAddDelta cryptoShorthash (ids.holding allocated) delta
      match answer with
      | none => .ok (false, [], after)
      | some rewind => do
          let (accepted, rewinds, last) ← pushDeltas
            (object.allocatedAfter cryptoShorthash (ids.holding allocated) delta) rest after
          .ok (accepted, rewind :: rewinds, last)

def commitRewinds : List DeltaRewind → RevertableObject → Except Fault RevertableObject
  | [], object => .ok object
  | rewind :: rest, object => do
      let after ← rewind.commit object
      commitRewinds rest after

/-- The deltas `own` fit on top of what is open and committed. -/
structure Room (base : Option StorageObject) (committed own : Multiset StorageDelta)
    (held : Multiset DeltaRewind) : Prop where
  solvent : Solvent (.onBase base) (own + live held committed) committed
  holders : own.countP (fun delta => delta.class?.isSome = true) + holderCount held ≤ 256 ∨
    Decided committed
  slots : (inserts (own + live held committed)).card ≤
    (RevertableObject.onBase base).newHashes.capacity.toNat

/-- One object in the middle of a serial transaction: every slot is free or
holds a live insertion. -/
structure Midway (base : Option StorageObject) (committed : Multiset StorageDelta)
    (held : Multiset DeltaRewind) (object : RevertableObject) : Prop where
  accounts : ∃ agreement, Accounts cryptoShorthash (.onBase base) held committed agreement object
  slots : object.newHashes.freeSlots + (inserts (live held committed)).card =
    (RevertableObject.onBase base).newHashes.capacity.toNat

section OneObject

variable {cryptoShorthash} {base : Option StorageObject} {committed own : Multiset StorageDelta}
  {held : Multiset DeltaRewind} {object after : RevertableObject} {delta : StorageDelta}

theorem midway_start : Midway cryptoShorthash base 0 0 (.onBase base) where
  accounts := ⟨.undecided, (round_start_over cryptoShorthash base).accounts⟩
  slots := by
    rw [(round_start_over cryptoShorthash base).vacant, live_none]
    rfl

theorem room_push (midway : Midway cryptoShorthash base committed held object)
    (room : Room base committed (delta ::ₘ own) held) {ids : CallIds}
    (served : ids.Serves delta) :
    ∃ rewind after, object.tryAddDelta cryptoShorthash ids delta = .ok (some rewind, after) ∧
      rewind.delta = delta ∧ Midway cryptoShorthash base committed (rewind ::ₘ held) after ∧
      Room base committed own (rewind ::ₘ held) := by
  obtain ⟨agreement, accounts⟩ := midway.accounts
  have moved : delta ::ₘ own + live held committed = own + delta ::ₘ live held committed := by
    rw [Multiset.cons_add, Multiset.add_cons]
  have solvent := room.solvent
  have slots := room.slots
  rw [moved] at solvent slots
  have included : delta ::ₘ live held committed ≤ own + delta ::ₘ live held committed :=
    Multiset.le_add_left _ _
  have affordable : Affordable (.onBase base) (live held committed) committed delta :=
    affordable_of_solvent_cons (solvent_mono solvent included (le_refl _))
  have free : delta.class? = none ∨ ¬ agreement.stuck := by
    cases classed : delta.class? with
    | none => exact Or.inl rfl
    | some value =>
        right
        rw [stuck_iff_full accounts]
        intro full
        rcases room.holders with counted | decided
        · rw [Multiset.countP_cons_of_pos _ (by rw [classed]; rfl)] at counted
          have many := full.1
          omega
        · exact full.2 decided
  have taken := card_inserts_cons delta (live held committed)
  have fits : slotsTaken delta ≤ object.newHashes.freeSlots := by
    have bound := Multiset.card_le_card (inserts_mono included)
    have counted := midway.slots
    omega
  obtain ⟨rewind, after, returned, pushed⟩ := push_accepts accounts affordable free fits served
  refine ⟨rewind, after, returned, pushed.own, ⟨pushed.accounts, ?_⟩, ?_, ?_, ?_⟩
  · rw [live_cons, pushed.own, taken]
    have counted := midway.slots
    have left := pushed.freeSlots
    omega
  · rw [live_cons, pushed.own]
    exact solvent
  · apply Or.imp_left _ room.holders
    intro counted
    rw [Multiset.countP_cons] at counted
    rw [holder_count_cons, DeltaRewind.holds, pushed.own]
    omega
  · rw [live_cons, pushed.own]
    exact slots

theorem midway_commit {rewind : DeltaRewind}
    (midway : Midway cryptoShorthash base committed (rewind ::ₘ held) object) :
    ∃ after, rewind.commit object = .ok after ∧
      Midway cryptoShorthash base (rewind.delta ::ₘ committed) held after := by
  obtain ⟨agreement, accounts⟩ := midway.accounts
  obtain ⟨after, returned, counted, table⟩ := rewind_commit_spec accounts
  refine ⟨after, returned, counted, ?_⟩
  rw [table, live_committed, ← live_cons]
  exact midway.slots

theorem midway_push (midway : Midway cryptoShorthash base committed held object) {ids : CallIds}
    {rewind : DeltaRewind}
    (returned : object.tryAddDelta cryptoShorthash ids delta = .ok (some rewind, after)) :
    rewind.delta = delta ∧ Midway cryptoShorthash base committed (rewind ::ₘ held) after := by
  obtain ⟨agreement, accounts⟩ := midway.accounts
  have outcome := push_outcome accounts delta ids
  rw [returned] at outcome
  cases outcome with
  | accepted pushed =>
      refine ⟨pushed.own, pushed.accounts, ?_⟩
      have taken := card_inserts_cons delta (live held committed)
      have counted := midway.slots
      have left := pushed.freeSlots
      rw [live_cons, pushed.own, taken]
      omega

theorem midway_room (midway : Midway cryptoShorthash base committed held object) :
    Room base committed 0 held := by
  obtain ⟨agreement, accounts⟩ := midway.accounts
  constructor
  · rw [zero_add]
    exact accounts.solvent
  · by_cases decided : Decided committed
    · exact Or.inr decided
    · left
      rw [Multiset.countP_zero, zero_add]
      exact holder_count_le accounts decided
  · rw [zero_add, ← midway.slots]
    exact Nat.le_add_left _ _

theorem room_cons {rewind : DeltaRewind} (own_delta : rewind.delta = delta)
    (room : Room base committed own (rewind ::ₘ held)) :
    Room base committed (delta ::ₘ own) held := by
  have moved : delta ::ₘ own + live held committed = own + live (rewind ::ₘ held) committed := by
    rw [live_cons, own_delta, Multiset.cons_add, Multiset.add_cons]
  constructor
  · rw [moved]
    exact room.solvent
  · apply Or.imp_left _ room.holders
    intro counted
    rw [holder_count_cons, DeltaRewind.holds, own_delta] at counted
    rw [Multiset.countP_cons]
    omega
  · rw [moved]
    exact room.slots

/-! ## A list of deltas -/

theorem push_deltas_accepts {allocated : ℕ} (calls : List (CallIds × StorageDelta))
    (midway : Midway cryptoShorthash base committed held object)
    (room : Room base committed ↑(calls.map Prod.snd) held)
    (entries : (inserts ↑(calls.map Prod.snd)).card ≤ allocSize - allocated) :
    ∃ granted after,
      pushDeltas cryptoShorthash allocated calls object = .ok (true, granted, after) := by
  induction calls generalizing held object allocated with
  | nil => exact ⟨[], object, rfl⟩
  | cons call rest induction =>
      obtain ⟨ids, delta⟩ := call
      rw [List.map_cons, ← Multiset.cons_coe] at room entries
      rw [card_inserts_cons] at entries
      simp only at entries
      have served : (ids.holding allocated).Serves delta := holding_serves_iff.mpr (by omega)
      have later : (inserts ↑(rest.map Prod.snd)).card ≤
          allocSize - (allocated + slotsTaken delta) := by
        omega
      obtain ⟨rewind, next, returned, _, kept, left⟩ := room_push midway room served
      have count := (accepted_takes returned).2
      rw [← count] at later
      obtain ⟨granted, after, pushed⟩ := induction kept left later
      exact ⟨rewind :: granted, after,
        by simp only [pushDeltas, returned, pushed, bind, Except.bind]⟩

theorem push_deltas_spec {allocated : ℕ} (calls : List (CallIds × StorageDelta))
    (midway : Midway cryptoShorthash base committed held object) {granted : List DeltaRewind}
    (returned : pushDeltas cryptoShorthash allocated calls object = .ok (true, granted, after)) :
    granted.map DeltaRewind.delta = calls.map Prod.snd ∧
      Midway cryptoShorthash base committed (↑granted + held) after ∧
      Room base committed ↑(calls.map Prod.snd) held ∧
      (inserts ↑(calls.map Prod.snd)).card ≤ allocSize - allocated := by
  induction calls generalizing held object granted allocated with
  | nil =>
      cases returned
      rw [Multiset.coe_nil, zero_add]
      exact ⟨rfl, midway, midway_room midway, Nat.zero_le _⟩
  | cons call rest induction =>
      obtain ⟨ids, delta⟩ := call
      simp only [pushDeltas, bind, Except.bind] at returned
      cases tried : object.tryAddDelta cryptoShorthash (ids.holding allocated) delta with
      | error fault =>
          rw [tried] at returned
          cases returned
      | ok result =>
          obtain ⟨answer, next⟩ := result
          rw [tried] at returned
          cases answer with
          | none => cases returned
          | some rewind =>
              simp only at returned
              obtain ⟨served, count⟩ := accepted_takes tried
              rw [count] at returned
              cases later : pushDeltas cryptoShorthash (allocated + slotsTaken delta) rest next with
              | error fault =>
                  rw [later] at returned
                  cases returned
              | ok result =>
                  obtain ⟨accepted, others, last⟩ := result
                  rw [later] at returned
                  cases returned
                  obtain ⟨own, kept⟩ := midway_push midway tried
                  obtain ⟨listed, done, room, entries⟩ := induction kept later
                  refine ⟨?_, ?_, ?_, ?_⟩
                  · rw [List.map_cons, List.map_cons, listed, own]
                  · rw [← Multiset.cons_coe, Multiset.cons_add, ← Multiset.add_cons]
                    exact done
                  · rw [List.map_cons, ← Multiset.cons_coe]
                    exact room_cons own room
                  · rw [List.map_cons, ← Multiset.cons_coe, card_inserts_cons]
                    simp only
                    omega

theorem commit_rewinds_spec (granted : List DeltaRewind)
    (midway : Midway cryptoShorthash base committed ↑granted object) :
    ∃ after, commitRewinds granted object = .ok after ∧
      Midway cryptoShorthash base (↑(granted.map DeltaRewind.delta) + committed) 0 after := by
  induction granted generalizing committed object with
  | nil => exact ⟨object, rfl, (zero_add committed).symm ▸ midway⟩
  | cons rewind rest induction =>
      rw [← Multiset.cons_coe] at midway
      obtain ⟨next, returned, kept⟩ := midway_commit midway
      obtain ⟨after, later, done⟩ := induction kept
      refine ⟨after, by simp only [commitRewinds, returned, later, bind, Except.bind], ?_⟩
      rw [List.map_cons, ← Multiset.cons_coe, Multiset.cons_add, ← Multiset.add_cons]
      exact done

/-- Alone on a new object, a list of deltas is accepted exactly when it has room and the
thread has an entry left for each insertion. -/
theorem push_alone_iff {allocated : ℕ} (calls : List (CallIds × StorageDelta)) :
    (∃ granted after, pushDeltas cryptoShorthash allocated calls (.onBase base) =
      .ok (true, granted, after)) ↔
      Room base 0 ↑(calls.map Prod.snd) 0 ∧
        (inserts ↑(calls.map Prod.snd)).card ≤ allocSize - allocated := by
  have start : Midway cryptoShorthash base 0 0 (.onBase base) := midway_start
  constructor
  · intro ⟨granted, after, returned⟩
    exact (push_deltas_spec calls start returned).2.2
  · intro ⟨room, entries⟩
    exact push_deltas_accepts calls start room entries

end OneObject

end Scs
