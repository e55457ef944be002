import Scs.Object.Session
import Mathlib.Tactic.Ring

/-!
# Nonnegative integers over a block

The live withdrawals never exceed the set value, and the value that a block
leaves is the exact sum of the committed amounts, cut off at `INT64_MAX`, as
long as the 128-bit counter holds the deposits.
-/

namespace Scs

set_option autoImplicit false

open Ledger Runs

namespace Ledger

def amount : StorageDelta → ℤ
  | .nonnegativeInt64SetAdd setAdd => setAdd.delta.toInt
  | _ => 0

def amountTotal (deltas : Multiset StorageDelta) : ℤ := (deltas.map amount).sum

def negativeTotal (deltas : Multiset StorageDelta) : ℤ :=
  (deltas.map fun delta => min (amount delta) 0).sum

theorem amount_split (delta : StorageDelta) :
    amount delta = delta.deposit - delta.withdrawal ∧
      min (amount delta) 0 = -(delta.withdrawal : ℤ) := by
  cases delta with
  | nonnegativeInt64SetAdd setAdd =>
      simp only [amount, StorageDelta.deposit, StorageDelta.withdrawal]
      omega
  | _ => exact ⟨rfl, rfl⟩

theorem amount_total_eq (deltas : Multiset StorageDelta) :
    amountTotal deltas =
      total StorageDelta.deposit deltas - total StorageDelta.withdrawal deltas := by
  induction deltas using Multiset.induction_on with
  | empty => rfl
  | cons delta rest induction =>
      have split := (amount_split delta).1
      simp only [amountTotal, Multiset.map_cons, Multiset.sum_cons, total_cons] at induction ⊢
      omega

theorem negative_total_eq (deltas : Multiset StorageDelta) :
    negativeTotal deltas = -(total StorageDelta.withdrawal deltas : ℤ) := by
  induction deltas using Multiset.induction_on with
  | empty => rfl
  | cons delta rest induction =>
      have split := (amount_split delta).2
      simp only [negativeTotal, Multiset.map_cons, Multiset.sum_cons, total_cons] at induction ⊢
      omega

end Ledger

/-- The saturated sum is the exact sum cut off at `INT64_MAX`. The withdrawals come off the
set value first, which covers them, so nothing is lost below zero. -/
theorem settle_int64_exact {value : Int64} {committed : Multiset StorageDelta}
    (covered : total StorageDelta.withdrawal committed = 0 ∨
      (total StorageDelta.withdrawal committed : ℤ) ≤ value.toInt)
    (held : total StorageDelta.deposit committed < 2 ^ 128) :
    (settleInt64 value committed).toInt =
      min (2 ^ 63 - 1) (value.toInt + amountTotal committed) := by
  have lowest := value.le_toInt
  have highest := value.toInt_lt
  have sum := amount_total_eq committed
  unfold settleInt64
  rw [Nat.mod_eq_of_lt held]
  simp only
  split_ifs with saturated
  · have top : Int64.maxValue.toInt = 2 ^ 63 - 1 := rfl
    rw [top]
    omega
  · rw [Int64.toInt_ofInt_of_le (by omega) (by omega)]
    omega

section Block

variable {cryptoShorthash : CryptoShorthash} {opening : Opening}
  {committed : Multiset StorageDelta} {agreement : Agreement} {object : RevertableObject}

/-- A block that commits a set of `setValue` and no deletion leaves a nonnegative
integer object. -/
theorem commit_round_int64
    (accounts : Accounts cryptoShorthash opening 0 committed agreement object) {setAdd : SetAdd}
    (member : StorageDelta.nonnegativeInt64SetAdd setAdd ∈ committed)
    (kept : StorageDelta.deleteLast ∉ committed) :
    ∃ after, object.commitRound = .ok after ∧ after.getCommittedObject =
      some { body := .nonnegativeInt64 (settleInt64 setAdd.setValue committed),
             escrowedFee := 0 } := by
  have valued := (agreed_value_iff accounts (.nonnegativeInt64 setAdd.setValue)).mpr
    ⟨_, member, rfl⟩
  have solvent := accounts.solvent
  rw [live_none] at solvent
  have allowed := solvent.allowed _ member _ rfl
  have made : objectFromDeltaClass (.nonnegativeInt64 setAdd.setValue) opening.base =
      .ok { body := .nonnegativeInt64 setAdd.setValue, escrowedFee := 0 } := by
    unfold objectFromDeltaClass
    rw [if_neg]
    intro mismatch
    cases stored : opening.base with
    | none =>
        rw [stored] at mismatch
        cases mismatch
    | some previous =>
        rw [stored] at mismatch
        have same := allowed previous.body.type (by rw [Opening.requiredType, stored]; rfl)
        simp only [decide_eq_true_eq] at mismatch
        exact mismatch same.symm
  have settled := commit_round_settles accounts
  rw [valued] at settled
  simp only [settle, agreedObject, made, bind, Except.bind, if_neg kept, settleBody] at settled
  cases returned : object.commitRound with
  | error fault =>
      rw [returned] at settled
      cases settled
  | ok after =>
      rw [returned] at settled
      exact ⟨after, rfl, Except.ok.inj settled⟩

theorem set_value_covers
    (accounts : Accounts cryptoShorthash opening 0 committed agreement object) {setAdd : SetAdd}
    (member : StorageDelta.nonnegativeInt64SetAdd setAdd ∈ committed) :
    total StorageDelta.withdrawal committed = 0 ∨
      (total StorageDelta.withdrawal committed : ℤ) ≤ setAdd.setValue.toInt := by
  have solvent := accounts.solvent
  rw [live_none] at solvent
  rcases withdrawals_zero_or committed with zero | ⟨other, otherMember, negative⟩
  · exact Or.inl zero
  · have bound := solvent.overdraft other otherMember negative
    have agreed := solvent.agreed _ member _ otherMember _ rfl _ rfl
    injection agreed with same
    rw [same]
    exact Or.inr bound

end Block

theorem total_replicate (measure : StorageDelta → ℕ) (count : ℕ) (delta : StorageDelta) :
    total measure (Multiset.replicate count delta) = count * measure delta := by
  rw [total, Multiset.map_replicate, Multiset.sum_replicate, nsmul_eq_mul, Nat.cast_id]

/-- In every block, at every point: live withdrawals stay within the set value;
and once every rewind is closed the block leaves the exact sum, cut off at
`INT64_MAX`, provided the deposits fit the 128-bit counter. -/
theorem nonnegative_int64_exact {cryptoShorthash : CryptoShorthash} {start : RevertableObject}
    (reachable : AtRoundStart cryptoShorthash start) {calls : List Call} {session : Session}
    (run : Run (Step cryptoShorthash) (.start start) calls session) (setAdd : SetAdd) :
    (StorageDelta.nonnegativeInt64SetAdd setAdd ∈ session.live → setAdd.delta < 0 →
      0 ≤ setAdd.setValue.toInt + negativeTotal session.live) ∧
    (session.held = 0 → StorageDelta.nonnegativeInt64SetAdd setAdd ∈ session.committed →
      StorageDelta.deleteLast ∉ session.committed →
      total StorageDelta.deposit session.committed < 2 ^ 128 →
      ∃ after value, session.object.commitRound = .ok after ∧
        after.getCommittedObject = some { body := .nonnegativeInt64 value, escrowedFee := 0 } ∧
        value.toInt = min (2 ^ 63 - 1) (setAdd.setValue.toInt + amountTotal session.committed) ∧
        min 0 setAdd.setValue.toInt ≤ value.toInt) := by
  obtain ⟨opening, _, started⟩ := at_round_start reachable
  obtain ⟨agreement, accounts⟩ := run_kept started run
  constructor
  · intro member negative
    have bound := accounts.solvent.overdraft setAdd member (Words.int64_neg_iff.mp negative)
    rw [negative_total_eq, Session.live]
    omega
  · intro closed member kept held
    rw [closed] at accounts
    obtain ⟨after, returned, stored⟩ := commit_round_int64 accounts member kept
    have covered := set_value_covers accounts member
    have exactly := settle_int64_exact covered held
    have highest := setAdd.setValue.toInt_lt
    have sum := amount_total_eq session.committed
    refine ⟨after, _, returned, stored, exactly, ?_⟩
    rw [exactly]
    omega

def quarterDeposit : SetAdd where
  setValue := 0
  delta := 0x4000000000000000

/-- `2 ^ 66` deposits of `2 ^ 62` bring the 128-bit counter back to zero: the
block leaves zero where the exact sum is far above `INT64_MAX`. -/
theorem nonnegative_int64_wraps :
    ∃ calls session, Run (Step fun _ => 0) (.start .fresh) calls session ∧
      session.held = 0 ∧
      StorageDelta.nonnegativeInt64SetAdd quarterDeposit ∈ session.committed ∧
      StorageDelta.deleteLast ∉ session.committed ∧
      ∃ after, session.object.commitRound = .ok after ∧
        after.getCommittedObject = some { body := .nonnegativeInt64 0, escrowedFee := 0 } ∧
        (0 : Int64).toInt ≠
          min (2 ^ 63 - 1) (quarterDeposit.setValue.toInt + amountTotal session.committed) := by
  obtain ⟨calls, session, run, kept, closed, deltas⟩ :=
    repeated_run (fun _ => 0) (.nonnegativeInt64SetAdd quarterDeposit) rfl rfl rfl rfl rfl
      (2 ^ 66)
  have member : StorageDelta.nonnegativeInt64SetAdd quarterDeposit ∈
      session.committed := by
    rw [deltas, Multiset.mem_replicate]
    exact ⟨by decide, rfl⟩
  have undeleted : StorageDelta.deleteLast ∉ session.committed := by
    rw [deltas, Multiset.mem_replicate]
    rintro ⟨_, impossible⟩
    cases impossible
  obtain ⟨agreement, accounts⟩ := kept
  rw [closed] at accounts
  obtain ⟨after, returned, stored⟩ := commit_round_int64 accounts member undeleted
  have taken : total StorageDelta.withdrawal session.committed = 0 := by
    rw [deltas, total_replicate]
    rfl
  have added : total StorageDelta.deposit session.committed = 2 ^ 128 := by
    rw [deltas, total_replicate]
    rfl
  have wrapped : settleInt64 quarterDeposit.setValue session.committed = 0 := by
    rw [settleInt64, taken, added]
    decide
  have sum : amountTotal session.committed = 2 ^ 128 := by
    rw [amount_total_eq, taken, added]
    rfl
  rw [wrapped] at stored
  refine ⟨calls, session, run, closed, member, undeleted, after, returned, stored, ?_⟩
  rw [sum]
  decide

/-- A deposit and a withdrawal in one block. -/
theorem nonnegative_int64_exact_set_add :
    ∃ calls session, Run (Step fun _ => 0) (.start .fresh) calls session ∧
      ∃ after value, session.object.commitRound = .ok after ∧
        after.getCommittedObject = some { body := .nonnegativeInt64 value, escrowedFee := 0 } ∧
        value.toInt = 3 := by
  have ran : ∃ session, Run (Step fun _ => 0) (.start .fresh)
      [.push .first (makeNonnegativeInt64SetAdd 5 (-4)),
        .push .first (makeNonnegativeInt64SetAdd 5 2),
        .commit (.granted { doRevert := true } (makeNonnegativeInt64SetAdd 5 2)),
        .commit (.granted { doRevert := true } (makeNonnegativeInt64SetAdd 5 (-4)))] session ∧
      session.held = 0 ∧ session.committed =
        {makeNonnegativeInt64SetAdd 5 (-4), makeNonnegativeInt64SetAdd 5 2} :=
    ⟨_, .cons rfl (.cons rfl (.cons rfl (.cons rfl (.nil _)))), rfl, rfl⟩
  obtain ⟨session, run, closed, deltas⟩ := ran
  have exactly := (nonnegative_int64_exact (.constructed none) run
    { setValue := 5, delta := 2 }).2 closed (by rw [deltas]; decide)
    (by rw [deltas]; decide) (by rw [deltas]; decide)
  obtain ⟨after, value, returned, stored, sum, _⟩ := exactly
  refine ⟨_, session, run, after, value, returned, stored, ?_⟩
  rw [sum, deltas]
  rfl

end Scs
