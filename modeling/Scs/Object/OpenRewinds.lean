import Scs.Object.RevertableBaseObject

/-!
# How many rewinds may be open (`RevertableBaseObject`)

One round of one object: sets, and commits and destructions of the rewinds they
gave, one call at a time. The tag counts the open rewinds in eight bits.
-/

namespace Scs

set_option autoImplicit false

def inflightCount (tag : UInt64) : Nat := (tag &&& 0xFF00).toNat / 256

theorem inflight_count_eq (tag : UInt64) : inflightCount tag = lowWord tag / 256 := by
  unfold inflightCount
  rw [to_nat_and_count]
  omega

namespace RevertableBaseObject

/-- `try_set` with the turns of its loop counted; `none` when they ran out. -/
def trySetWithin (fuel : Nat) (newId : UniqueId) (newObj : StorageDeltaClass)
    (base : RevertableBaseObject) : Option (Option Rewind × RevertableBaseObject) :=
  match base.requiredType with
  | some required =>
      if newObj.type ≠ required then some (none, base)
      else turns (base.trySetAttempt newId newObj) fuel
  | none => turns (base.trySetAttempt newId newObj) fuel

def revertWithin (fuel : Nat) (newId : UniqueId) (base : RevertableBaseObject) :
    Option RevertableBaseObject :=
  turns (base.revertAttempt newId) fuel

theorem while_true_ok {Result : Type} {body : Option Result} {result : Result}
    (returned : whileTrue body = .ok result) : body = some result := by
  cases body with
  | none => cases returned
  | some value =>
      cases returned
      rfl

theorem try_set_within {fuel : Nat} {newId : UniqueId} {newObj : StorageDeltaClass}
    {base : RevertableBaseObject} {result : Option Rewind × RevertableBaseObject}
    (returned : base.trySet newId newObj = .ok result) :
    base.trySetWithin (fuel + 1) newId newObj = some result := by
  unfold trySet at returned
  unfold trySetWithin
  rw [turns_succ]
  cases required : base.requiredType with
  | none =>
      rw [required] at returned
      exact while_true_ok returned
  | some type =>
      rw [required] at returned
      simp only at returned ⊢
      split_ifs at returned ⊢ with wrong
      · cases returned
        rfl
      · exact while_true_ok returned

theorem revert_within {fuel : Nat} {newId : UniqueId} {base after : RevertableBaseObject}
    (returned : base.revert newId = .ok after) :
    base.revertWithin (fuel + 1) newId = some after := by
  unfold revertWithin
  rw [turns_succ]
  exact while_true_ok returned

end RevertableBaseObject

/-! ## The calls of a round -/

/-- A granted rewind that still exists, and whether it was committed. -/
structure HeldRewind where
  rewind : Rewind
  committed : Bool
  deriving DecidableEq, Repr

inductive BaseCall where
  | trySet (newId : UniqueId) (newObj : StorageDeltaClass)
  | commit (held : Nat)
  | destroy (held : Nat) (newId : UniqueId)

structure BaseRound where
  base : RevertableBaseObject
  held : List HeldRewind
  /-- Whether some rewind was committed this round. -/
  committed : Bool

namespace BaseRound

def start (required : Option ObjectType) : BaseRound where
  base := { tag := 0, obj := none, requiredType := required }
  held := []
  committed := false

def openCount (round : BaseRound) : Nat := round.held.countP fun held => !held.committed

/-- One call, with a bound on the turns of its loop. Naming a rewind that does
not exist calls nothing. -/
def perform (fuel : Nat) (round : BaseRound) : BaseCall → Option BaseRound
  | .trySet newId newObj =>
      match round.base.trySetWithin fuel newId newObj with
      | none => none
      | some (none, base) => some { round with base := base }
      | some (some rewind, base) =>
          some { round with base := base, held := round.held ++ [⟨rewind, false⟩] }
  | .commit held =>
      match round.held[held]? with
      | none => some round
      | some one =>
          some { base := one.rewind.commit round.base
                 held := round.held.set held ⟨{ doRevert := false }, true⟩
                 committed := true }
  | .destroy held newId =>
      match round.held[held]? with
      | none => some round
      | some one =>
          if one.rewind.doRevert then
            match round.base.revertWithin fuel newId with
            | none => none
            | some base => some { round with base := base, held := round.held.eraseIdx held }
          else some { round with held := round.held.eraseIdx held }

/-- The tag counts the open rewinds while nothing is committed, and the pointer
is set exactly when a granted rewind is open or one was committed. -/
structure Exact (round : BaseRound) : Prop where
  counted : round.committed = false → inflightCount round.base.tag = round.openCount
  pointed : round.base.obj.isSome = true ↔ 0 < round.openCount ∨ round.committed = true

/-- Every call returns within `fuel` turns of its loop, and every state between
calls is exact. -/
def Settles (fuel : Nat) : BaseRound → List BaseCall → Prop
  | round, [] => round.Exact
  | round, call :: calls =>
      round.Exact ∧ ∃ after, perform fuel round call = some after ∧ Settles fuel after calls

/-- The call is a set that would be granted while nothing is committed and 255
rewinds are open. -/
def Overfills (round : BaseRound) : BaseCall → Prop
  | .trySet _ newObj =>
      round.committed = false ∧ round.openCount = 255 ∧
        typeAllows round.base.requiredType newObj ∧ round.base.obj = some newObj
  | .commit _ => False
  | .destroy _ _ => False

def Spared (fuel : Nat) : BaseRound → List BaseCall → Prop
  | _, [] => True
  | round, call :: calls =>
      ¬ round.Overfills call ∧
        ∀ after, perform fuel round call = some after → Spared fuel after calls

/-! ## The agreement behind a round -/

/-- While nothing is committed every rewind that exists is open and would be
reverted. -/
def Holds (round : BaseRound) : Agreement → Prop
  | .undecided => round.held = [] ∧ round.committed = false
  | .tentative _ holders =>
      round.held = List.replicate holders ⟨{ doRevert := true }, false⟩ ∧ round.committed = false
  | .decided _ => round.committed = true

structure Kept (round : BaseRound) (agreement : Agreement) : Prop where
  represents : Represents round.base round.base.requiredType agreement
  holds : round.Holds agreement

theorem start_kept (required : Option ObjectType) : (start required).Kept .undecided where
  represents := ⟨rfl, rfl, rfl⟩
  holds := ⟨rfl, rfl⟩

section Step

variable {round : BaseRound} {agreement : Agreement} {fuel : Nat}

theorem open_count_replicate {holders : Nat}
    (held : round.held = List.replicate holders ⟨{ doRevert := true }, false⟩) :
    round.openCount = holders := by
  unfold openCount
  rw [held, List.countP_replicate]
  rfl

theorem Kept.exact (kept : round.Kept agreement) (free : ¬ agreement.stuck) : round.Exact := by
  have word := kept.represents.word
  have pointed := kept.represents.obj
  have holds := kept.holds
  cases agreement with
  | undecided =>
      have none_open : round.openCount = 0 := by
        rw [openCount, holds.1]
        rfl
      refine ⟨?_, ?_⟩
      · intro _
        rw [none_open, inflight_count_eq, word]
      · rw [pointed, none_open, holds.2]
        simp [Agreement.value?]
  | tentative value holders =>
      have unfilled : holders ≠ 256 := free
      have counted := open_count_replicate holds.1
      simp only at word
      refine ⟨?_, ?_⟩
      · intro _
        rw [counted, inflight_count_eq]
        omega
      · rw [pointed, counted]
        simp [Agreement.value?, word.1]
  | decided value =>
      have committed : round.committed = true := holds
      refine ⟨?_, ?_⟩
      · intro impossible
        rw [committed] at impossible
        cases impossible
      · rw [pointed, committed]
        simp [Agreement.value?]

theorem Kept.inexact (kept : round.Kept agreement) (stuck : agreement.stuck) :
    ¬ round.Exact := by
  cases agreement with
  | undecided => exact stuck.elim
  | decided value => exact stuck.elim
  | tentative value holders =>
      have full : holders = 256 := stuck
      have word := kept.represents.word.2.2
      have holds := kept.holds
      have counted := open_count_replicate holds.1
      intro exact_
      have claimed := exact_.counted holds.2
      rw [counted, inflight_count_eq] at claimed
      omega

/-- A set either changes nothing but the object's loop, or is granted. A granted set opens
one more rewind unless the value is committed. -/
theorem Kept.try_set (kept : round.Kept agreement) (free : ¬ agreement.stuck) (newId : UniqueId)
    (newObj : StorageDeltaClass) :
    perform (fuel + 1) round (.trySet newId newObj) = some round ∨
      ∃ after, perform (fuel + 1) round (.trySet newId newObj) = some after ∧
        after.Kept (agreement.grant newObj).2 ∧
        typeAllows round.base.requiredType newObj ∧
        (agreement.value? = none ∨ agreement.value? = some newObj) := by
  by_cases allowed : typeAllows round.base.requiredType newObj
  · by_cases agrees : ∀ current, agreement.value? = some current → current = newObj
    · right
      obtain ⟨base, returned, represents, -⟩ :=
        try_set_granted newId kept.represents allowed free agrees
      refine ⟨{ round with
          base := base
          held := round.held ++ [⟨(agreement.grant newObj).1, false⟩] }, ?_, ?_, allowed, ?_⟩
      · simp only [perform, RevertableBaseObject.try_set_within returned]
      · refine ⟨?_, ?_⟩
        · rw [represents.requiredType]
          exact represents
        · have holds := kept.holds
          cases agreement with
          | undecided =>
              refine ⟨?_, holds.2⟩
              simp only [holds.1]
              rfl
          | tentative value holders =>
              refine ⟨?_, holds.2⟩
              simp only [holds.1, Agreement.grant, List.replicate_succ']
          | decided value => exact holds
      · cases held : agreement.value? with
        | none => exact .inl rfl
        | some current => exact .inr (congrArg some (agrees current held))
    · left
      push Not at agrees
      obtain ⟨current, held, different⟩ := agrees
      have refused : round.base.trySet newId newObj = .ok (none, round.base) :=
        try_set_conflict kept.represents allowed free held different
      simp only [perform, RevertableBaseObject.try_set_within refused]
  · left
    have refused : round.base.trySet newId newObj = .ok (none, round.base) :=
      try_set_wrong_type kept.represents allowed
    simp only [perform, RevertableBaseObject.try_set_within refused]

theorem Kept.commit (kept : round.Kept agreement) (free : ¬ agreement.stuck) (place : Nat) :
    ∃ after, perform fuel round (.commit place) = some after ∧
      ∃ next, after.Kept next ∧ ¬ next.stuck := by
  cases member : round.held[place]? with
  | none =>
      refine ⟨round, ?_, agreement, kept, free⟩
      simp only [perform, member]
  | some one =>
      have performed : perform fuel round (.commit place) = some
          { base := one.rewind.commit round.base
            held := round.held.set place ⟨{ doRevert := false }, true⟩
            committed := true } := by
        simp only [perform, member]
      refine ⟨_, performed, ?_⟩
      have holds := kept.holds
      cases agreement with
      | undecided =>
          rw [holds.1] at member
          cases member
      | tentative value holders =>
          have inside := List.mem_of_getElem? member
          rw [holds.1] at inside
          rw [List.eq_of_mem_replicate inside]
          have fixed := commit_represents kept.represents (by simp [Agreement.value?])
          exact ⟨.decided value, ⟨fixed, rfl⟩, id⟩
      | decided value =>
          have fixed := commit_represents kept.represents (by simp [Agreement.value?])
          refine ⟨.decided value, ⟨?_, rfl⟩, id⟩
          unfold Rewind.commit
          split_ifs
          · exact fixed
          · exact kept.represents

theorem Kept.destroy (kept : round.Kept agreement) (free : ¬ agreement.stuck) (place : Nat)
    (newId : UniqueId) :
    ∃ after, perform (fuel + 1) round (.destroy place newId) = some after ∧
      ∃ next, after.Kept next ∧ ¬ next.stuck := by
  cases member : round.held[place]? with
  | none =>
      refine ⟨round, ?_, agreement, kept, free⟩
      simp only [perform, member]
  | some one =>
      have holds := kept.holds
      have inside := List.mem_of_getElem? member
      by_cases reverts : one.rewind.doRevert = true
      · have valued : agreement.value? ≠ none := by
          cases agreement with
          | undecided =>
              rw [holds.1] at inside
              cases inside
          | tentative value holders => simp [Agreement.value?]
          | decided value => simp [Agreement.value?]
        obtain ⟨base, returned, represents, -⟩ :=
          revert_represents newId kept.represents free valued
        refine ⟨{ round with base := base, held := round.held.eraseIdx place }, ?_,
          agreement.release, ⟨?_, ?_⟩, ?_⟩
        · simp only [perform, member, reverts, RevertableBaseObject.revert_within returned,
            if_true]
        · rw [represents.requiredType]
          exact represents
        · cases agreement with
          | undecided => exact absurd rfl valued
          | tentative value holders =>
              have bound : place < holders := by
                have lower := (List.getElem?_eq_some_iff.mp member).1
                rwa [holds.1, List.length_replicate] at lower
              by_cases last : holders = 1
              · subst last
                simp only [Agreement.release, if_true]
                refine ⟨?_, holds.2⟩
                simp only [holds.1, List.eraseIdx_replicate, if_pos bound]
                rfl
              · simp only [Agreement.release, if_neg last]
                refine ⟨?_, holds.2⟩
                simp only [holds.1, List.eraseIdx_replicate, if_pos bound]
          | decided value => exact holds
        · cases agreement with
          | undecided => exact id
          | tentative value holders =>
              have bounded := kept.represents.word.2.1
              by_cases last : holders = 1
              · simp only [Agreement.release, if_pos last]
                exact id
              · simp only [Agreement.release, if_neg last]
                intro full
                have : holders - 1 = 256 := full
                omega
          | decided value => exact id
      · refine ⟨{ round with held := round.held.eraseIdx place }, ?_, agreement,
          ⟨kept.represents, ?_⟩, free⟩
        · simp only [perform, member, reverts, Bool.false_eq_true, if_false]
        · cases agreement with
          | undecided =>
              rw [holds.1] at inside
              cases inside
          | tentative value holders =>
              rw [holds.1] at inside
              rw [List.eq_of_mem_replicate inside] at reverts
              exact absurd rfl reverts
          | decided value => exact holds

/-- One call that does not overfill the count returns, and keeps the round below
256 open rewinds. -/
theorem Kept.step (kept : round.Kept agreement) (free : ¬ agreement.stuck) (call : BaseCall)
    (spared : ¬ round.Overfills call) :
    ∃ after, perform (fuel + 1) round call = some after ∧
      ∃ next, after.Kept next ∧ ¬ next.stuck := by
  cases call with
  | commit place => exact kept.commit free place
  | destroy place newId => exact kept.destroy free place newId
  | trySet newId newObj =>
      rcases kept.try_set free newId newObj with
        same | ⟨after, performed, granted, allowed, agrees⟩
      · exact ⟨round, same, agreement, kept, free⟩
      · refine ⟨after, performed, _, granted, ?_⟩
        intro full
        have pointed := kept.represents.obj
        have holds := kept.holds
        cases agreement with
        | undecided => cases full
        | decided value => cases full
        | tentative value holders =>
            have last : holders + 1 = 256 := full
            have counted := open_count_replicate holds.1
            refine spared ⟨holds.2, by omega, allowed, ?_⟩
            rw [pointed]
            simpa [Agreement.value?] using agrees

/-- A set of the value agreed on opens one more rewind. -/
theorem Kept.grant_again {value : StorageDeltaClass} {holders : Nat}
    (kept : round.Kept (.tentative value holders)) (unfilled : holders ≠ 256)
    (newId : UniqueId) (allowed : typeAllows round.base.requiredType value) :
    ∃ after, perform (fuel + 1) round (.trySet newId value) = some after ∧
      after.Kept (.tentative value (holders + 1)) ∧
      after.base.requiredType = round.base.requiredType := by
  obtain ⟨base, returned, represents, -⟩ :=
    try_set_granted newId kept.represents allowed unfilled (by simp [Agreement.value?])
  refine ⟨{ round with
      base := base
      held := round.held ++ [⟨{ doRevert := true }, false⟩] }, ?_, ⟨?_, ?_, kept.holds.2⟩,
    represents.requiredType⟩
  · simp only [perform, RevertableBaseObject.try_set_within returned, Agreement.grant]
  · rw [represents.requiredType]
    exact represents
  · simp only [kept.holds.1, List.replicate_succ']

/-- The call that overfills the count returns, and the round it leaves is not
exact. -/
theorem Kept.overfilled (kept : round.Kept agreement) (free : ¬ agreement.stuck) {call : BaseCall}
    (overfills : round.Overfills call) {after : BaseRound}
    (performed : perform (fuel + 1) round call = some after) : ¬ after.Exact := by
  cases call with
  | commit place => exact overfills.elim
  | destroy place newId => exact overfills.elim
  | trySet newId newObj =>
      obtain ⟨uncommitted, full, allowed, pointed⟩ := overfills
      have stands := kept.represents.obj
      have holds := kept.holds
      rw [pointed] at stands
      cases agreement with
      | undecided => cases stands
      | decided value =>
          have committed : round.committed = true := holds
          rw [uncommitted] at committed
          cases committed
      | tentative value holders =>
          have same : newObj = value := Option.some_inj.mp stands
          subst same
          have counted := open_count_replicate holds.1
          have unfilled : holders ≠ 256 := free
          obtain ⟨after', performed', next, -⟩ :=
            kept.grant_again unfilled newId allowed
          rw [performed] at performed'
          cases performed'
          have last : holders + 1 = 256 := by omega
          exact next.inexact last

/-- Past that call neither a set nor a destruction returns, for any number of
turns. -/
theorem Kept.never_returns (kept : round.Kept agreement) (stuck : agreement.stuck)
    (newId : UniqueId) {newObj : StorageDeltaClass}
    (allowed : typeAllows round.base.requiredType newObj) :
    round.base.trySetWithin fuel newId newObj = none ∧
      round.base.revertWithin fuel newId = none := by
  have set : round.base.trySet newId newObj = .error .spin :=
    try_set_stuck kept.represents allowed stuck
  have revert := revert_stuck newId kept.represents stuck
  constructor
  · rw [try_set_loop kept.represents allowed] at set
    have never := (while_true_spins _).mp set fuel
    unfold RevertableBaseObject.trySetWithin
    cases required : round.base.requiredType with
    | none => exact never
    | some type => exact (if_neg (not_not.mpr (allowed type required))).trans never
  · exact (while_true_spins _).mp revert fuel

theorem Settles.head {calls : List BaseCall} (settles : Settles fuel round calls) :
    round.Exact := by
  cases calls with
  | nil => exact settles
  | cons call calls => exact settles.1

theorem Kept.settles_iff {calls : List BaseCall} :
    ∀ {round : BaseRound} {agreement : Agreement}, round.Kept agreement → ¬ agreement.stuck →
      (Settles (fuel + 1) round calls ↔ Spared (fuel + 1) round calls) := by
  induction calls with
  | nil =>
      intro round agreement kept free
      simp only [Settles, Spared, iff_true]
      exact kept.exact free
  | cons call calls induction =>
      intro round agreement kept free
      constructor
      · rintro ⟨_, after, performed, rest⟩
        have spared : ¬ round.Overfills call := by
          intro overfills
          exact kept.overfilled free overfills performed rest.head
        obtain ⟨after', performed', next, kept', free'⟩ := kept.step free call spared
        rw [performed] at performed'
        cases performed'
        refine ⟨spared, ?_⟩
        intro other same
        rw [performed] at same
        cases same
        exact (induction kept' free').mp rest
      · rintro ⟨spared, rest⟩
        obtain ⟨after, performed, next, kept', free'⟩ := kept.step free call spared
        exact ⟨kept.exact free, after, performed,
          (induction kept' free').mpr (rest after performed)⟩

end Step

/-- A round settles, one turn a call being enough, exactly when no set is
granted on 255 open rewinds with nothing committed. -/
theorem rewinds_settle_iff (fuel : Nat) (required : Option ObjectType) (calls : List BaseCall) :
    Settles (fuel + 1) (start required) calls ↔ Spared (fuel + 1) (start required) calls := by
  exact (start_kept required).settles_iff id

theorem Settles.reached {fuel : Nat} {calls : List BaseCall} :
    ∀ {round after : BaseRound}, Settles fuel round calls →
      calls.foldlM (perform fuel) round = some after → after.Exact := by
  induction calls with
  | nil =>
      intro round after settles ends
      rw [List.foldlM_nil] at ends
      cases ends
      exact settles
  | cons call calls induction =>
      intro round after settles ends
      obtain ⟨-, next, performed, rest⟩ := settles
      rw [List.foldlM_cons, performed] at ends
      exact induction rest ends

/-- Sets of the agreed value, one after another, fill the count. -/
theorem Kept.replicate_fills {fuel : Nat} {newId : UniqueId} {value : StorageDeltaClass}
    {count : Nat} :
    ∀ {holders : Nat} {round : BaseRound}, round.Kept (.tentative value holders) →
      typeAllows round.base.requiredType value → holders + count ≤ 256 →
      ∃ after, (List.replicate count (.trySet newId value)).foldlM (perform (fuel + 1)) round =
          some after ∧
        after.Kept (.tentative value (holders + count)) ∧
        after.base.requiredType = round.base.requiredType := by
  induction count with
  | zero =>
      intro holders round kept _ _
      exact ⟨round, rfl, kept, rfl⟩
  | succ count induction =>
      intro holders round kept allowed room
      obtain ⟨next, performed, kept', required⟩ :=
        kept.grant_again (by omega) newId allowed
      rw [← required] at allowed
      obtain ⟨after, ends, full, same⟩ := induction kept' allowed (by omega)
      refine ⟨after, ?_, ?_, same.trans required⟩
      · rw [List.replicate_succ, List.foldlM_cons, performed]
        exact ends
      · rwa [Nat.add_right_comm, Nat.add_assoc] at full

/-- One round of 256 sets of one value: the count then reads zero, and the next
set never returns. -/
theorem full_count_sticks :
    ¬ Settles 1 (start none) (List.replicate 256 (.trySet ⟨0x10000, rfl⟩ .hashSet)) ∧
      ∃ after, (List.replicate 256 (.trySet ⟨0x10000, rfl⟩ .hashSet)).foldlM (perform 1)
          (start none) = some after ∧
        ∀ fuel, perform fuel after (.trySet ⟨0x10000, rfl⟩ .hashSet) = none := by
  have anyType : typeAllows none .hashSet := by
    intro type impossible
    cases impossible
  obtain ⟨first, performed, kept, required⟩ : ∃ first,
      perform 1 (start none) (.trySet ⟨0x10000, rfl⟩ .hashSet) = some first ∧
        first.Kept (.tentative .hashSet 1) ∧ first.base.requiredType = none :=
    ⟨_, rfl, ⟨⟨rfl, rfl, by decide⟩, rfl, rfl⟩, rfl⟩
  rw [← required] at anyType
  obtain ⟨after, filled, full, same⟩ :=
    kept.replicate_fills anyType (show 1 + 255 ≤ 256 by omega)
  have ends : (List.replicate 256 (.trySet ⟨0x10000, rfl⟩ .hashSet)).foldlM (perform 1)
      (start none) = some after := by
    rw [List.replicate_succ, List.foldlM_cons, performed]
    exact filled
  rw [← same] at anyType
  refine ⟨fun settles => full.inexact rfl (settles.reached ends), after, ends, ?_⟩
  intro fuel
  simp only [perform, (full.never_returns rfl ⟨0x10000, rfl⟩ anyType).1]

end BaseRound

end Scs
