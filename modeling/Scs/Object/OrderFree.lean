import Scs.Object.IndexUse
import Scs.Object.Session

/-!
# Order independence on one object

Acceptance of a list of contract deltas, and the object that a block leaves,
depend on the deltas as a multiset only.
-/

namespace Scs

set_option autoImplicit false

open Ledger Runs

/-! ## Acceptance -/

def StorageDelta.fromSyscall : StorageDelta → Bool
  | .rawMemoryWrite _ => true
  | .nonnegativeInt64SetAdd _ => true
  | .hashSetInsert _ => true
  | .hashSetIncreaseLimit _ => true
  | .hashSetClear _ => true
  | .deleteLast => true
  | _ => false

variable (cryptoShorthash : CryptoShorthash)

/-- `try_add_delta` and, when it is accepted, `commit`. -/
def pushAndCommit (ids : CallIds) (delta : StorageDelta) (object : RevertableObject) :
    Except Fault (Option RevertableObject) := do
  let (answer, pushed) ← object.tryAddDelta cryptoShorthash ids delta
  match answer with
  | none => .ok none
  | some rewind => do
      let committed ← rewind.commit pushed
      .ok (some committed)

/-- Every delta of the list in turn, up to the first that is rejected, on a thread that has
allocated so many entries. -/
def pushAndCommitAll : ℕ → List (CallIds × StorageDelta) → RevertableObject →
    Except Fault (Option RevertableObject)
  | _, [], object => .ok (some object)
  | allocated, (ids, delta) :: rest, object => do
      match ← pushAndCommit cryptoShorthash (ids.holding allocated) delta object with
      | none => .ok none
      | some next =>
          pushAndCommitAll
            (object.allocatedAfter cryptoShorthash (ids.holding allocated) delta) rest next

def AcceptsAll (allocated : ℕ) (calls : List (CallIds × StorageDelta))
    (object : RevertableObject) : Prop :=
  ∃ final, pushAndCommitAll cryptoShorthash allocated calls object = .ok (some final)

def deltasOf (calls : List (CallIds × StorageDelta)) : Multiset StorageDelta :=
  ↑(calls.map Prod.snd)

@[simp] theorem deltas_of_nil : deltasOf [] = 0 := rfl

@[simp] theorem deltas_of_cons (ids : CallIds) (delta : StorageDelta)
    (rest : List (CallIds × StorageDelta)) :
    deltasOf ((ids, delta) :: rest) = delta ::ₘ deltasOf rest := rfl

variable {cryptoShorthash} {opening : Opening} {committed : Multiset StorageDelta}
  {agreement : Agreement} {object : RevertableObject}

theorem slots_taken_inserts (deltas : Multiset StorageDelta) (delta : StorageDelta) :
    slotsTaken delta + (inserts deltas).card = (inserts (delta ::ₘ deltas)).card :=
  (card_inserts_cons delta deltas).symm

theorem push_and_commit_spec
    (accounts : Accounts cryptoShorthash opening 0 committed agreement object)
    {ids : CallIds} {delta : StorageDelta} {next : RevertableObject}
    (returned : pushAndCommit cryptoShorthash ids delta object = .ok (some next)) :
    (∃ agreement, Accounts cryptoShorthash opening 0 (delta ::ₘ committed) agreement next) ∧
      next.newHashes.freeSlots + slotsTaken delta = object.newHashes.freeSlots ∧
      ids.Serves delta ∧
      object.allocatedAfter cryptoShorthash ids delta = ids.allocated + slotsTaken delta := by
  have outcome := push_outcome accounts delta ids
  unfold pushAndCommit at returned
  generalize pushed_result : object.tryAddDelta cryptoShorthash ids delta = result
    at outcome returned
  cases outcome with
  | @accepted rewind after pushed =>
      obtain ⟨granted, kept⟩ := pushed.accounts
      obtain ⟨final, committed_result, counted, sameTable⟩ := rewind_commit_spec kept
      simp only [bind, Except.bind, committed_result, Except.ok.injEq, Option.some.injEq]
        at returned
      subst returned
      rw [pushed.own] at counted
      exact ⟨counted, by rw [sameTable, pushed.freeSlots], accepted_serves pushed_result,
        accepted_allocated pushed_result⟩
  | rejected rejected reason => cases returned
  | faulted unimplemented => cases returned
  | spins classed stuck => cases returned
  | lost unaffordable full => cases returned
  | exhausted unserved => cases returned

theorem push_and_commit_accepts
    (accounts : Accounts cryptoShorthash opening 0 committed agreement object)
    {delta : StorageDelta} (affordable : Affordable opening committed committed delta)
    (slots : slotsTaken delta ≤ object.newHashes.freeSlots) {ids : CallIds}
    (served : ids.Serves delta) :
    ∃ next, pushAndCommit cryptoShorthash ids delta object = .ok (some next) := by
  have afforded : Affordable opening (live 0 committed) committed delta := by
    rw [live_none]
    exact affordable
  obtain ⟨rewind, after, returned, pushed⟩ :=
    push_accepts accounts afforded (Or.inr (closed_free accounts)) slots served
  obtain ⟨granted, kept⟩ := pushed.accounts
  obtain ⟨final, committed_result, _⟩ := rewind_commit_spec kept
  refine ⟨final, ?_⟩
  simp only [pushAndCommit, bind, Except.bind, returned, committed_result]

theorem accepts_all_solvent {allocated : ℕ} (calls : List (CallIds × StorageDelta))
    (accounts : Accounts cryptoShorthash opening 0 committed agreement object)
    (accepted : AcceptsAll cryptoShorthash allocated calls object) :
    Solvent opening (deltasOf calls + committed) (deltasOf calls + committed) ∧
      (inserts (deltasOf calls)).card ≤ object.newHashes.freeSlots ∧
      (inserts (deltasOf calls)).card ≤ allocSize - allocated := by
  induction calls generalizing object committed agreement allocated with
  | nil =>
      have solvent := accounts.solvent
      rw [live_none] at solvent
      rw [deltas_of_nil, zero_add]
      exact ⟨solvent, Nat.zero_le _, Nat.zero_le _⟩
  | cons call rest induction =>
      obtain ⟨ids, delta⟩ := call
      obtain ⟨final, accepted⟩ := accepted
      simp only [pushAndCommitAll, bind, Except.bind] at accepted
      cases first : pushAndCommit cryptoShorthash (ids.holding allocated) delta object with
      | error fault =>
          rw [first] at accepted
          cases accepted
      | ok answer =>
          rw [first] at accepted
          cases answer with
          | none => cases accepted
          | some next =>
              obtain ⟨⟨agreed, kept⟩, slots, served, count⟩ := push_and_commit_spec accounts first
              rw [count] at accepted
              obtain ⟨solvent, room, entries⟩ := induction kept ⟨final, accepted⟩
              have left := holding_serves_iff.mp served
              rw [CallIds.holding_allocated] at entries
              have moved : deltasOf rest + delta ::ₘ committed =
                  deltasOf ((ids, delta) :: rest) + committed := by
                rw [deltas_of_cons, Multiset.add_cons, Multiset.cons_add]
              have taken := slots_taken_inserts (deltasOf rest) delta
              rw [deltas_of_cons] at *
              exact ⟨moved ▸ solvent, by omega, by omega⟩

/-- A ledger without asset deltas is solvent whichever of its deltas are
committed. -/
theorem solvent_recommit {live committed : Multiset StorageDelta}
    (solvent : Solvent opening live committed) (noOut : total StorageDelta.assetOut live = 0)
    (noIn : total StorageDelta.assetIn live = 0) (other : Multiset StorageDelta) :
    Solvent opening live other where
  implemented := solvent.implemented
  allowed := solvent.allowed
  agreed := solvent.agreed
  overdraft := solvent.overdraft
  room := solvent.room
  unseen := solvent.unseen
  distinct := solvent.distinct
  assetLower := by
    rw [noOut]
    exact Nat.zero_le _
  assetUpper := by
    have bounded := opening.supply.toNat_lt
    rw [noIn]
    omega

theorem accepts_all_of_solvent {allocated : ℕ} (calls : List (CallIds × StorageDelta))
    (accounts : Accounts cryptoShorthash opening 0 committed agreement object)
    (solvent : ∀ other, Solvent opening (deltasOf calls + committed) other)
    (room : (inserts (deltasOf calls)).card ≤ object.newHashes.freeSlots)
    (entries : (inserts (deltasOf calls)).card ≤ allocSize - allocated) :
    AcceptsAll cryptoShorthash allocated calls object := by
  induction calls generalizing object committed agreement allocated with
  | nil => exact ⟨object, rfl⟩
  | cons call rest induction =>
      obtain ⟨ids, delta⟩ := call
      have moved : deltasOf ((ids, delta) :: rest) + committed =
          deltasOf rest + delta ::ₘ committed := by
        rw [deltas_of_cons, Multiset.add_cons, Multiset.cons_add]
      have taken := slots_taken_inserts (deltasOf rest) delta
      rw [moved] at solvent
      rw [deltas_of_cons, ← taken] at room entries
      have next_solvent : Solvent opening (delta ::ₘ committed) committed :=
        solvent_mono (solvent committed) (Multiset.le_add_left _ _) (le_refl _)
      have served : (ids.holding allocated).Serves delta := holding_serves_iff.mpr (by omega)
      have later : (inserts (deltasOf rest)).card ≤ allocSize - (allocated + slotsTaken delta) := by
        omega
      obtain ⟨next, first⟩ := push_and_commit_accepts accounts
        (affordable_of_solvent_cons next_solvent) (by omega) served
      obtain ⟨⟨agreed, kept⟩, slots, _, count⟩ := push_and_commit_spec accounts first
      rw [CallIds.holding_allocated] at count
      obtain ⟨final, accepted⟩ := induction kept solvent (by omega) later
      rw [← count] at accepted
      refine ⟨final, ?_⟩
      simp only [pushAndCommitAll, bind, Except.bind, first, accepted]

/-- The deltas of a contract are accepted in every order or in none, on every object that
a block can start with and every thread, however many entries it has allocated. -/
theorem acceptance_order_free {start : RevertableObject} {allocated : ℕ}
    (reachable : AtRoundStart cryptoShorthash start)
    {calls reordered : List (CallIds × StorageDelta)}
    (syscalls : ∀ call ∈ calls, call.2.fromSyscall = true)
    (same : (calls.map Prod.snd).Perm (reordered.map Prod.snd))
    (accepted : AcceptsAll cryptoShorthash allocated calls start) :
    AcceptsAll cryptoShorthash allocated reordered start := by
  obtain ⟨opening, _, started⟩ := at_round_start reachable
  obtain ⟨solvent, room, entries⟩ := accepts_all_solvent calls started.accounts accepted
  have deltas : deltasOf calls = deltasOf reordered := Multiset.coe_eq_coe.mpr same
  have no_asset : ∀ delta ∈ deltasOf calls + 0, delta.assetOut = 0 ∧ delta.assetIn = 0 := by
    intro delta member
    rw [add_zero] at member
    obtain ⟨call, inside, rfl⟩ := List.mem_map.mp (Multiset.mem_coe.mp member)
    have syscall := syscalls call inside
    generalize call.2 = delta at syscall
    cases delta <;> first | exact ⟨rfl, rfl⟩ | cases syscall
  have noOut := total_eq_zero fun delta member => (no_asset delta member).1
  have noIn := total_eq_zero fun delta member => (no_asset delta member).2
  apply accepts_all_of_solvent reordered started.accounts
  · rw [← deltas]
    exact solvent_recommit solvent noOut noIn
  · rw [← deltas]
    exact room
  · rw [← deltas]
    exact entries

/-- A withdrawal, a deposit and a deletion in another order. -/
theorem acceptance_order_free_set_add :
    AcceptsAll (fun _ => 0) 0
      [(.first, .deleteLast), (.first, makeNonnegativeInt64SetAdd 5 2),
        (.first, makeNonnegativeInt64SetAdd 5 (-4))] .fresh :=
  have accepted : AcceptsAll (fun _ => 0) 0
      [(.first, makeNonnegativeInt64SetAdd 5 (-4)), (.first, makeNonnegativeInt64SetAdd 5 2),
        (.first, .deleteLast)] .fresh := ⟨_, rfl⟩
  acceptance_order_free (.constructed none) (by decide) (by decide) accepted

/-! ## The committed object -/

/-- Two runs of a block from one object that commit the same deltas leave the
same committed object, whatever their orders and whatever they revert. -/
theorem committed_object_order_free {start : RevertableObject}
    (reachable : AtRoundStart cryptoShorthash start) {left right : List Call}
    {first second : Session} (leftRun : Run (Step cryptoShorthash) (.start start) left first)
    (rightRun : Run (Step cryptoShorthash) (.start start) right second)
    (leftClosed : first.held = 0) (rightClosed : second.held = 0)
    (same : first.committed = second.committed) :
    first.object.commitRound.map RevertableObject.getCommittedObject =
      second.object.commitRound.map RevertableObject.getCommittedObject := by
  obtain ⟨opening, _, started⟩ := at_round_start reachable
  obtain ⟨leftAgreement, leftAccounts⟩ := run_kept started leftRun
  obtain ⟨rightAgreement, rightAccounts⟩ := run_kept started rightRun
  rw [leftClosed] at leftAccounts
  rw [rightClosed, ← same] at rightAccounts
  exact settle_unique leftAccounts rightAccounts

def plainCalls : List Call :=
  [.push .first (makeNonnegativeInt64SetAdd 5 (-4)),
    .push .first (makeNonnegativeInt64SetAdd 5 2),
    .commit (.granted { doRevert := true } (makeNonnegativeInt64SetAdd 5 2)),
    .commit (.granted { doRevert := true } (makeNonnegativeInt64SetAdd 5 (-4)))]

def interleavedCalls : List Call :=
  [.push .first (makeNonnegativeInt64SetAdd 5 2),
    .push .first (makeNonnegativeInt64SetAdd 5 7),
    .commit (.granted { doRevert := true } (makeNonnegativeInt64SetAdd 5 2)),
    .push .first (makeNonnegativeInt64SetAdd 5 (-4)),
    .revert CallIds.first.undo
      (.granted { doRevert := true } (makeNonnegativeInt64SetAdd 5 7)),
    .commit (.granted { doRevert := false } (makeNonnegativeInt64SetAdd 5 (-4)))]

theorem committed_object_order_free_set_add :
    ∃ first second : Session,
      Run (Step fun _ => 0) (.start .fresh) plainCalls first ∧
      Run (Step fun _ => 0) (.start .fresh) interleavedCalls second ∧
      first.object.commitRound.map RevertableObject.getCommittedObject =
        second.object.commitRound.map RevertableObject.getCommittedObject := by
  have plain : ∃ session, Run (Step fun _ => 0) (.start .fresh) plainCalls session ∧
      session.held = 0 ∧ session.committed =
        {makeNonnegativeInt64SetAdd 5 (-4), makeNonnegativeInt64SetAdd 5 2} :=
    ⟨_, .cons rfl (.cons rfl (.cons rfl (.cons rfl (.nil _)))), rfl, rfl⟩
  have interleaved : ∃ session,
      Run (Step fun _ => 0) (.start .fresh) interleavedCalls session ∧
      session.held = 0 ∧ session.committed =
        {makeNonnegativeInt64SetAdd 5 (-4), makeNonnegativeInt64SetAdd 5 2} :=
    ⟨_, .cons rfl (.cons rfl (.cons rfl (.cons rfl (.cons rfl (.cons rfl (.nil _)))))), rfl, rfl⟩
  obtain ⟨first, leftRun, leftClosed, leftDeltas⟩ := plain
  obtain ⟨second, rightRun, rightClosed, rightDeltas⟩ := interleaved
  exact ⟨first, second, leftRun, rightRun, committed_object_order_free (.constructed none)
    leftRun rightRun leftClosed rightClosed (leftDeltas.trans rightDeltas.symm)⟩

end Scs
