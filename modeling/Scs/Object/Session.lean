import Scs.Library.Runs
import Scs.Object.Round

/-!
# One object over its blocks

A session is an object with the rewinds that are open on it and, as a record of
the round so far, the deltas that were committed. The steps of a round are the
calls of any number of transactions in any order; rounds follow one another
through `commit_round` and `rewind_round`.
-/

namespace Scs

set_option autoImplicit false

open Ledger Runs

structure Session where
  object : RevertableObject
  held : Multiset DeltaRewind
  committed : Multiset StorageDelta

namespace Session

def start (object : RevertableObject) : Session where
  object := object
  held := 0
  committed := 0

def live (session : Session) : Multiset StorageDelta :=
  Scs.live session.held session.committed

end Session

inductive Call where
  | push (ids : CallIds) (delta : StorageDelta)
  | commit (rewind : DeltaRewind)
  | revert (newId : UniqueId) (rewind : DeltaRewind)

namespace Session

/-- One call; `none` when it does not return or names a rewind that is not open. -/
def perform (cryptoShorthash : CryptoShorthash) (session : Session) : Call → Option Session
  | .push ids delta =>
      match session.object.tryAddDelta cryptoShorthash ids delta with
      | .ok (some rewind, after) =>
          some { session with object := after, held := rewind ::ₘ session.held }
      | .ok (none, after) => some { session with object := after }
      | .error _ => none
  | .commit rewind =>
      if rewind ∈ session.held then
        match rewind.commit session.object with
        | .ok after =>
            some
              { object := after
                held := session.held.erase rewind
                committed := rewind.delta ::ₘ session.committed }
        | .error _ => none
      else none
  | .revert newId rewind =>
      if rewind ∈ session.held then
        match rewind.destroy cryptoShorthash newId session.object with
        | .ok after => some { session with object := after, held := session.held.erase rewind }
        | .error _ => none
      else none

end Session

def Step (cryptoShorthash : CryptoShorthash) (session : Session) (call : Call)
    (next : Session) : Prop :=
  session.perform cryptoShorthash call = some next

inductive StepCases (cryptoShorthash : CryptoShorthash) (session : Session) :
    Call → Session → Prop
  | accept {ids : CallIds} {delta : StorageDelta} {rewind : DeltaRewind}
      {after : RevertableObject}
      (returned : session.object.tryAddDelta cryptoShorthash ids delta = .ok (some rewind, after)) :
      StepCases cryptoShorthash session (.push ids delta)
        { session with object := after, held := rewind ::ₘ session.held }
  | reject {ids : CallIds} {delta : StorageDelta} {after : RevertableObject}
      (returned : session.object.tryAddDelta cryptoShorthash ids delta = .ok (none, after)) :
      StepCases cryptoShorthash session (.push ids delta) { session with object := after }
  | commit {rewind : DeltaRewind} {rest : Multiset DeltaRewind} {after : RevertableObject}
      (opened : session.held = rewind ::ₘ rest)
      (returned : rewind.commit session.object = .ok after) :
      StepCases cryptoShorthash session (.commit rewind)
        { object := after, held := rest, committed := rewind.delta ::ₘ session.committed }
  | revert {newId : UniqueId} {rewind : DeltaRewind} {rest : Multiset DeltaRewind}
      {after : RevertableObject} (opened : session.held = rewind ::ₘ rest)
      (returned : rewind.destroy cryptoShorthash newId session.object = .ok after) :
      StepCases cryptoShorthash session (.revert newId rewind)
        { session with object := after, held := rest }

theorem step_cases {cryptoShorthash : CryptoShorthash} {session next : Session} {call : Call}
    (step : Step cryptoShorthash session call next) :
    StepCases cryptoShorthash session call next := by
  unfold Step Session.perform at step
  cases call with
  | push ids delta =>
      simp only at step
      split at step
      · rename_i rewind after returned
        cases step
        exact .accept returned
      · rename_i after returned
        cases step
        exact .reject returned
      · cases step
  | commit rewind =>
      simp only at step
      split_ifs at step with member
      split at step
      · rename_i after returned
        cases step
        exact .commit (Multiset.cons_erase member).symm returned
      · cases step
  | revert newId rewind =>
      simp only at step
      split_ifs at step with member
      split at step
      · rename_i after returned
        cases step
        exact .revert (Multiset.cons_erase member).symm returned
      · cases step

/-- The objects that a block can start with: constructed over any committed
object, or left by the end of an earlier block. -/
inductive AtRoundStart (cryptoShorthash : CryptoShorthash) : RevertableObject → Prop
  | constructed (base : Option StorageObject) : AtRoundStart cryptoShorthash (.onBase base)
  | committed {start after : RevertableObject} {calls : List Call} {session : Session}
      (earlier : AtRoundStart cryptoShorthash start)
      (run : Run (Step cryptoShorthash) (.start start) calls session)
      (closed : session.held = 0) (returned : session.object.commitRound = .ok after) :
      AtRoundStart cryptoShorthash after
  | rewound {start : RevertableObject} {calls : List Call} {session : Session}
      (earlier : AtRoundStart cryptoShorthash start)
      (run : Run (Step cryptoShorthash) (.start start) calls session)
      (closed : session.held = 0) : AtRoundStart cryptoShorthash session.object.rewindRound

/-! ## The invariant of a session -/

def Kept (cryptoShorthash : CryptoShorthash) (opening : Opening) (session : Session) : Prop :=
  ∃ agreement,
    Accounts cryptoShorthash opening session.held session.committed agreement session.object

section Invariant

variable {cryptoShorthash : CryptoShorthash} {opening : Opening}

theorem kept_start {object : RevertableObject}
    (start : RoundStart cryptoShorthash opening object) :
    Kept cryptoShorthash opening (.start object) :=
  ⟨.undecided, start.accounts⟩

theorem step_kept (session : Session) (call : Call) (next : Session)
    (kept : Kept cryptoShorthash opening session)
    (step : Step cryptoShorthash session call next) : Kept cryptoShorthash opening next := by
  obtain ⟨agreement, accounts⟩ := kept
  cases step_cases step with
  | @accept ids delta rewind after returned =>
      have outcome := push_outcome accounts delta ids
      rw [returned] at outcome
      cases outcome with
      | accepted pushed => exact pushed.accounts
  | @reject ids delta after returned =>
      have outcome := push_outcome accounts delta ids
      rw [returned] at outcome
      cases outcome with
      | rejected rejected reason => exact ⟨agreement, rejected.accounts⟩
  | @commit rewind rest after opened returned =>
      rw [opened] at accounts
      obtain ⟨result, committed, kept, _⟩ := rewind_commit_spec accounts
      rw [returned] at committed
      cases committed
      exact kept
  | @revert newId rewind rest after opened returned =>
      rw [opened] at accounts
      rcases rewind_destroy_spec accounts newId with ⟨_, _, spins⟩ | ⟨result, destroyed, spec⟩
      · rw [returned] at spins
        cases spins
      · rw [returned] at destroyed
        cases destroyed
        exact spec.accounts

theorem run_kept {object : RevertableObject} {calls : List Call} {session : Session}
    (start : RoundStart cryptoShorthash opening object)
    (run : Run (Step cryptoShorthash) (.start object) calls session) :
    Kept cryptoShorthash opening session :=
  run_invariant (Kept cryptoShorthash opening) step_kept (kept_start start) run

theorem at_round_start {object : RevertableObject}
    (reachable : AtRoundStart cryptoShorthash object) :
    ∃ opening : Opening, opening.base = object.committedBase ∧
      RoundStart cryptoShorthash opening object := by
  induction reachable with
  | constructed base =>
      refine ⟨.onBase base, ?_, round_start_over cryptoShorthash base⟩
      cases base <;> rfl
  | @committed start after calls session _ run closed returned induction =>
      obtain ⟨opening, _, started⟩ := induction
      obtain ⟨agreement, accounts⟩ := run_kept started run
      rw [closed] at accounts
      exact commit_round_start accounts returned
  | @rewound start calls session _ run closed induction =>
      obtain ⟨opening, _, started⟩ := induction
      obtain ⟨agreement, accounts⟩ := run_kept started run
      exact ⟨.onBase opening.base, accounts.booked.committedBase.symm, rewind_round_start accounts⟩

theorem closed_free {committed : Multiset StorageDelta} {agreement : Agreement}
    {object : RevertableObject}
    (accounts : Accounts cryptoShorthash opening 0 committed agreement object) :
    ¬ agreement.stuck := by
  rw [stuck_iff accounts.agreed]
  rintro ⟨full, _⟩
  have none_open : holderCount 0 = 0 := rfl
  omega

theorem run_push_commit {start : RevertableObject} {calls : List Call} {session : Session}
    {delta : StorageDelta} (run : Run (Step cryptoShorthash) (.start start) calls session)
    (kept : Kept cryptoShorthash opening session) (closed : session.held = 0)
    (affordable : Affordable opening session.committed session.committed delta)
    (slots : slotsTaken delta ≤ session.object.newHashes.freeSlots) :
    ∃ more next, Run (Step cryptoShorthash) (.start start) more next ∧
      Kept cryptoShorthash opening next ∧ next.held = 0 ∧
      next.committed = delta ::ₘ session.committed := by
  obtain ⟨agreement, accounts⟩ := kept
  rw [closed] at accounts
  have afforded : Affordable opening (Scs.live 0 session.committed) session.committed delta := by
    rw [live_none]
    exact affordable
  obtain ⟨rewind, after, returned, pushed⟩ :=
    push_accepts accounts afforded (Or.inr (closed_free accounts)) slots (first_serves delta)
  obtain ⟨granted, pushedAccounts⟩ := pushed.accounts
  obtain ⟨final, committed, finalKept, _⟩ := rewind_commit_spec pushedAccounts
  rw [pushed.own] at finalKept
  have pushStep : Step cryptoShorthash session (.push .first delta)
      { session with object := after, held := rewind ::ₘ 0 } := by
    simp only [Step, Session.perform, returned, closed]
  have commitStep : Step cryptoShorthash { session with object := after, held := rewind ::ₘ 0 }
      (.commit rewind)
      { object := final, held := 0, committed := delta ::ₘ session.committed } := by
    simp [Step, Session.perform, committed, pushed.own]
  exact ⟨_, _, run_snoc (run_snoc run pushStep) commitStep, finalKept, rfl, rfl⟩

/-- A delta that reserves nothing can be committed any number of times in one block. -/
theorem repeated_run (cryptoShorthash : CryptoShorthash) (delta : StorageDelta)
    (implemented : delta.implemented = true) (noWithdrawal : delta.withdrawal = 0)
    (noInsert : delta.inserted? = none) (noOut : delta.assetOut = 0) (noIn : delta.assetIn = 0)
    (count : ℕ) :
    ∃ calls session, Run (Step cryptoShorthash) (.start .fresh) calls session ∧
      Kept cryptoShorthash (.onBase none) session ∧ session.held = 0 ∧
      session.committed = Multiset.replicate count delta := by
  induction count with
  | zero =>
      have started := round_start_over cryptoShorthash none
      exact ⟨[], .start .fresh, .nil _, kept_start started, rfl, rfl⟩
  | succ count induction =>
      obtain ⟨calls, session, run, kept, closed, deltas⟩ := induction
      have solvent := kept.choose_spec.solvent
      rw [closed, live_none] at solvent
      have compatible : Compatible (.onBase none) session.committed delta := by
        refine ⟨implemented, ?_, ?_⟩
        · intro value _ type required
          cases required
        · intro value own other member otherValue classed
          rw [deltas] at member
          rw [Multiset.eq_of_mem_replicate member, own] at classed
          exact Option.some_inj.mp classed
      have free : slotsTaken delta ≤ session.object.newHashes.freeSlots := by
        rw [slotsTaken, noInsert]
        exact Nat.zero_le _
      obtain ⟨more, next, longer, nextKept, nextClosed, nextDeltas⟩ :=
        run_push_commit run kept closed
          (affordable_of_weightless solvent compatible noWithdrawal noInsert noOut noIn) free
      refine ⟨more, next, longer, nextKept, nextClosed, ?_⟩
      rw [nextDeltas, deltas, Multiset.replicate_succ]

/-- The agreed value is the one the committed deltas set, once no rewind is open. -/
theorem agreed_value_iff {committed : Multiset StorageDelta} {agreement : Agreement}
    {object : RevertableObject} (accounts : Accounts cryptoShorthash opening 0 committed agreement
      object) (value : StorageDeltaClass) :
    agreement.value? = some value ↔ ∃ delta ∈ committed, delta.class? = some value := by
  constructor
  · intro valued
    have backed := value_backed accounts valued
    rwa [live_none] at backed
  · rintro ⟨delta, member, classed⟩
    apply accounts.agreed.value delta _ value classed
    rw [live_none]
    exact member

/-- Two closed ledgers with the same committed deltas settle to the same object, whatever
else was pushed and given back on the way. -/
theorem settle_unique {committed : Multiset StorageDelta} {left right : Agreement}
    {first second : RevertableObject}
    (leftAccounts : Accounts cryptoShorthash opening 0 committed left first)
    (rightAccounts : Accounts cryptoShorthash opening 0 committed right second) :
    first.commitRound.map RevertableObject.getCommittedObject =
      second.commitRound.map RevertableObject.getCommittedObject := by
  have same : left.value? = right.value? := by
    apply Option.ext
    intro value
    rw [agreed_value_iff leftAccounts value, agreed_value_iff rightAccounts value]
  rw [commit_round_settles leftAccounts, commit_round_settles rightAccounts, same]

end Invariant

end Scs
