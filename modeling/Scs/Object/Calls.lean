import Scs.Object.Accounts

/-!
# The calls of one round, over the ledger

`Accounts` relates an object to the open rewinds and the committed deltas of
its round. Every call that returns keeps the relation, and the conditions under
which a call returns or accepts are read off the ledger.
-/

namespace Scs

set_option autoImplicit false

open Ledger

def live (held : Multiset DeltaRewind) (committed : Multiset StorageDelta) :
    Multiset StorageDelta :=
  held.map DeltaRewind.delta + committed

@[simp] theorem live_cons (rewind : DeltaRewind) (held : Multiset DeltaRewind)
    (committed : Multiset StorageDelta) :
    live (rewind ::ₘ held) committed = rewind.delta ::ₘ live held committed := by
  simp only [live, Multiset.map_cons, Multiset.cons_add]

@[simp] theorem live_committed (held : Multiset DeltaRewind) (delta : StorageDelta)
    (committed : Multiset StorageDelta) :
    live held (delta ::ₘ committed) = delta ::ₘ live held committed := by
  simp only [live, Multiset.add_cons]

@[simp] theorem live_none (committed : Multiset StorageDelta) : live 0 committed = committed := by
  simp only [live, Multiset.map_zero, zero_add]

theorem committed_le_live (held : Multiset DeltaRewind) (committed : Multiset StorageDelta) :
    committed ≤ live held committed :=
  Multiset.le_add_left committed _

theorem live_mono {few many : Multiset DeltaRewind} {committed : Multiset StorageDelta}
    (fewer : few ≤ many) : live few committed ≤ live many committed :=
  Multiset.add_le_add_right (Multiset.map_le_map fewer)

def DeltaRewind.holds (rewind : DeltaRewind) : Bool := rewind.delta.class?.isSome

theorem holds_iff (rewind : DeltaRewind) :
    rewind.holds = true ↔ ∃ value, rewind.delta.class? = some value :=
  Option.isSome_iff_exists

theorem idle_class {rewind : DeltaRewind} (idle : rewind.holds = false) :
    rewind.delta.class? = none := by
  rw [DeltaRewind.holds, Option.isSome_eq_false_iff, Option.isNone_iff_eq_none] at idle
  exact idle

def holderCount (held : Multiset DeltaRewind) : ℕ :=
  held.countP fun rewind => rewind.holds = true

theorem holder_count_cons (rewind : DeltaRewind) (held : Multiset DeltaRewind) :
    holderCount (rewind ::ₘ held) = holderCount held + if rewind.holds then 1 else 0 :=
  Multiset.countP_cons _ rewind held

def Backed (held : Multiset DeltaRewind) (committed : Multiset StorageDelta) :
    Agreement → Prop
  | .undecided => True
  | .tentative _ holders =>
      holders = holderCount held ∧
      (∀ rewind ∈ held, rewind.holds = true → rewind.rewindBase.doRevert = true) ∧
      ∀ delta ∈ committed, delta.class? = none
  | .decided value => ∃ delta ∈ committed, delta.class? = some value

/-- The state of the base-value agreement that a ledger forces. -/
structure Agreed (held : Multiset DeltaRewind) (committed : Multiset StorageDelta)
    (agreement : Agreement) : Prop where
  armed : ∀ rewind ∈ held, rewind.doRewind = true
  loose : ∀ rewind ∈ held, rewind.delta.class? = none → rewind.rewindBase.doRevert = false
  value : ∀ delta ∈ live held committed, ∀ value, delta.class? = some value →
    agreement.value? = some value
  backed : Backed held committed agreement

section Agreement

variable {held : Multiset DeltaRewind} {committed : Multiset StorageDelta}
  {agreement : Agreement} {rewind : DeltaRewind}

theorem agreed_start : Agreed 0 0 .undecided where
  armed _ member := absurd member (Multiset.notMem_zero _)
  loose _ member := absurd member (Multiset.notMem_zero _)
  value _ member := absurd member (Multiset.notMem_zero _)
  backed := trivial

/-- A delta that sets no value leaves the agreement alone. -/
theorem agreed_detached {delta : StorageDelta} (agreed : Agreed held committed agreement)
    (unclassed : delta.class? = none) :
    Agreed (.granted .detached delta ::ₘ held) committed agreement where
  armed := by
    rw [Multiset.forall_mem_cons]
    exact ⟨rfl, agreed.armed⟩
  loose := by
    rw [Multiset.forall_mem_cons]
    exact ⟨fun _ => rfl, agreed.loose⟩
  value := by
    rw [live_cons, Multiset.forall_mem_cons]
    refine ⟨?_, agreed.value⟩
    intro value classed
    rw [DeltaRewind.granted, unclassed] at classed
    cases classed
  backed := by
    have holders := agreed.backed
    have idle : (DeltaRewind.granted .detached delta).holds = false := by
      simp only [DeltaRewind.holds, DeltaRewind.granted, unclassed, Option.isSome_none]
    cases agreement with
    | undecided => trivial
    | tentative value count =>
        obtain ⟨counted, reverting, none_fixed⟩ := holders
        refine ⟨?_, ?_, none_fixed⟩
        · rw [holder_count_cons, idle]
          exact counted
        · rw [Multiset.forall_mem_cons]
          refine ⟨?_, reverting⟩
          intro holds
          rw [idle] at holds
          cases holds
    | decided value => exact holders

theorem agreed_grant {delta : StorageDelta} {value : StorageDeltaClass}
    (agreed : Agreed held committed agreement) (classed : delta.class? = some value)
    (agrees : ∀ current, agreement.value? = some current → current = value) :
    Agreed (.granted (agreement.grant value).1 delta ::ₘ held) committed
      (agreement.grant value).2 where
  armed := by
    rw [Multiset.forall_mem_cons]
    exact ⟨rfl, agreed.armed⟩
  loose := by
    rw [Multiset.forall_mem_cons]
    refine ⟨?_, agreed.loose⟩
    intro unclassed
    rw [DeltaRewind.granted, classed] at unclassed
    cases unclassed
  value := by
    rw [live_cons, Multiset.forall_mem_cons]
    constructor
    · intro own same
      rw [DeltaRewind.granted, classed] at same
      cases same
      cases agreement with
      | undecided => rfl
      | tentative current count => exact congrArg some (agrees current rfl)
      | decided current => exact congrArg some (agrees current rfl)
    · intro other member otherValue otherClassed
      have before := agreed.value other member otherValue otherClassed
      cases agreement with
      | undecided => cases before
      | tentative current count => exact before
      | decided current => exact before
  backed := by
    have holders := agreed.backed
    have holding : ∀ base : Rewind, (DeltaRewind.granted base delta).holds = true := by
      intro opening
      simp only [DeltaRewind.holds, DeltaRewind.granted, classed, Option.isSome_some]
    cases agreement with
    | undecided =>
        have nobody : ∀ other ∈ live held committed, other.class? = none := by
          intro other member
          cases found : other.class? with
          | none => rfl
          | some otherValue => cases agreed.value other member otherValue found
        have heldNobody : ∀ rewind ∈ held, rewind.holds = false := by
          intro rewind member
          have unclassed := nobody rewind.delta
            (Multiset.mem_add.mpr (Or.inl (Multiset.mem_map_of_mem _ member)))
          simp only [DeltaRewind.holds, unclassed, Option.isSome_none]
        refine ⟨?_, ?_, ?_⟩
        · rw [holder_count_cons, holding, holderCount, Multiset.countP_eq_zero.mpr]
          · rfl
          · intro rewind member
            simp only [heldNobody rewind member, Bool.false_eq_true, not_false_iff]
        · rw [Multiset.forall_mem_cons]
          refine ⟨fun _ => rfl, ?_⟩
          intro rewind member holds
          rw [heldNobody rewind member] at holds
          cases holds
        · intro other member
          exact nobody other (Multiset.mem_add.mpr (Or.inr member))
    | tentative current count =>
        obtain ⟨counted, reverting, none_fixed⟩ := holders
        refine ⟨?_, ?_, none_fixed⟩
        · rw [holder_count_cons, holding, ← counted]
          rfl
        · rw [Multiset.forall_mem_cons]
          exact ⟨fun _ => rfl, reverting⟩
    | decided current => exact holders

/-- Giving up a hold. The last hold on an undecided value sets it free. -/
theorem agreed_release (agreed : Agreed (rewind ::ₘ held) committed agreement)
    (holds : rewind.holds = true) : Agreed held committed agreement.release where
  armed other member := agreed.armed other (Multiset.mem_cons_of_mem member)
  loose other member := agreed.loose other (Multiset.mem_cons_of_mem member)
  value delta member value classed := by
    have whole : delta ∈ live (rewind ::ₘ held) committed := by
      rw [live_cons]
      exact Multiset.mem_cons_of_mem member
    have before := agreed.value delta whole value classed
    have holders := agreed.backed
    cases agreement with
    | undecided => cases before
    | decided current => exact before
    | tentative current count =>
        obtain ⟨counted, _, none_fixed⟩ := holders
        -- A live holder besides the released one keeps the count above one.
        have more : count ≠ 1 := by
          rw [counted, holder_count_cons, holds]
          have other : 0 < holderCount held := by
            rcases Multiset.mem_add.mp member with open_delta | fixed_delta
            · obtain ⟨other, otherMember, rfl⟩ := Multiset.mem_map.mp open_delta
              exact Multiset.countP_pos.mpr
                ⟨other, otherMember, (holds_iff other).mpr ⟨value, classed⟩⟩
            · rw [none_fixed delta fixed_delta] at classed
              cases classed
          simp only [if_true]
          omega
        rw [Agreement.release, if_neg more]
        exact before
  backed := by
    have holders := agreed.backed
    cases agreement with
    | undecided => trivial
    | decided current => exact holders
    | tentative current count =>
        obtain ⟨counted, reverting, none_fixed⟩ := holders
        rw [holder_count_cons, holds] at counted
        simp only [if_true] at counted
        by_cases last : count = 1
        · have freed : (Agreement.tentative current count).release = .undecided := if_pos last
          rw [freed]
          trivial
        · have kept : (Agreement.tentative current count).release =
              .tentative current (count - 1) := if_neg last
          rw [kept]
          refine ⟨by omega, ?_, none_fixed⟩
          intro other member
          exact reverting other (Multiset.mem_cons_of_mem member)

theorem agreed_drop (agreed : Agreed (rewind ::ₘ held) committed agreement)
    (idle : rewind.holds = false) : Agreed held committed agreement where
  armed other member := agreed.armed other (Multiset.mem_cons_of_mem member)
  loose other member := agreed.loose other (Multiset.mem_cons_of_mem member)
  value delta member := by
    have whole := agreed.value delta
    rw [live_cons] at whole
    exact whole (Multiset.mem_cons_of_mem member)
  backed := by
    have holders := agreed.backed
    cases agreement with
    | undecided => trivial
    | decided current => exact holders
    | tentative current count =>
        obtain ⟨counted, reverting, none_fixed⟩ := holders
        rw [holder_count_cons, idle] at counted
        refine ⟨counted, ?_, none_fixed⟩
        intro other member
        exact reverting other (Multiset.mem_cons_of_mem member)

theorem agreed_fix (agreed : Agreed (rewind ::ₘ held) committed agreement)
    (holds : rewind.holds = true) :
    Agreed held (rewind.delta ::ₘ committed) agreement.fix where
  armed other member := agreed.armed other (Multiset.mem_cons_of_mem member)
  loose other member := agreed.loose other (Multiset.mem_cons_of_mem member)
  value delta member value classed := by
    rw [live_committed, ← live_cons] at member
    have before := agreed.value delta member value classed
    cases agreement <;> exact before
  backed := by
    obtain ⟨value, classed⟩ := (holds_iff rewind).mp holds
    have own : rewind.delta ∈ live (rewind ::ₘ held) committed := by
      rw [live_cons]
      exact Multiset.mem_cons_self _ _
    have before := agreed.value rewind.delta own value classed
    cases agreement with
    | undecided => cases before
    | tentative current count =>
        cases before
        exact ⟨rewind.delta, Multiset.mem_cons_self _ _, classed⟩
    | decided current =>
        cases before
        exact ⟨rewind.delta, Multiset.mem_cons_self _ _, classed⟩

theorem agreed_fix_idle (agreed : Agreed (rewind ::ₘ held) committed agreement)
    (idle : rewind.holds = false) :
    Agreed held (rewind.delta ::ₘ committed) agreement where
  armed other member := agreed.armed other (Multiset.mem_cons_of_mem member)
  loose other member := agreed.loose other (Multiset.mem_cons_of_mem member)
  value delta member := by
    rw [live_committed, ← live_cons] at member
    exact agreed.value delta member
  backed := by
    have holders := (agreed_drop agreed idle).backed
    have unclassed : rewind.delta.class? = none := idle_class idle
    cases agreement with
    | undecided => trivial
    | decided current =>
        obtain ⟨delta, member, classed⟩ := holders
        exact ⟨delta, Multiset.mem_cons_of_mem member, classed⟩
    | tentative current count =>
        obtain ⟨counted, reverting, none_fixed⟩ := holders
        refine ⟨counted, reverting, ?_⟩
        rw [Multiset.forall_mem_cons]
        exact ⟨unclassed, none_fixed⟩

def Decided (committed : Multiset StorageDelta) : Prop :=
  ∃ delta ∈ committed, delta.class? ≠ none

theorem decided_agreement (agreed : Agreed held committed agreement)
    (decided : Decided committed) : ∃ value, agreement = .decided value := by
  obtain ⟨delta, member, classed⟩ := decided
  obtain ⟨value, same⟩ := Option.ne_none_iff_exists'.mp classed
  have backed := agreed.backed
  have valued := agreed.value delta (Multiset.mem_of_le (committed_le_live held committed) member)
    value same
  cases agreement with
  | undecided => cases valued
  | tentative current count => exact absurd (backed.2.2 delta member) classed
  | decided current => exact ⟨current, rfl⟩

/-- The count is full when 256 holders are open and no value is committed. It then reads
zero although the pointer is not null, and the loops of `try_set` and `revert` take that for
a torn read. -/
theorem stuck_iff (agreed : Agreed held committed agreement) :
    agreement.stuck ↔ holderCount held = 256 ∧ ∀ delta ∈ committed, delta.class? = none := by
  have holders := agreed.backed
  constructor
  · intro stuck
    cases agreement with
    | undecided => exact stuck.elim
    | decided current => exact stuck.elim
    | tentative current count =>
        obtain ⟨counted, _, none_fixed⟩ := holders
        have full : count = 256 := stuck
        exact ⟨by omega, none_fixed⟩
  · rintro ⟨full, none_fixed⟩
    cases agreement with
    | undecided =>
        have some_holder : 0 < holderCount held := by omega
        obtain ⟨rewind, member, holds⟩ := Multiset.countP_pos.mp some_holder
        obtain ⟨value, classed⟩ := (holds_iff rewind).mp holds
        have own : rewind.delta ∈ live held committed :=
          Multiset.mem_add.mpr (Or.inl (Multiset.mem_map_of_mem _ member))
        cases agreed.value rewind.delta own value classed
    | tentative current count => exact holders.1.trans full
    | decided current =>
        obtain ⟨delta, member, classed⟩ := holders
        rw [none_fixed delta member] at classed
        cases classed

end Agreement

/-! ## One object and its ledger -/

/-- The whole relation between an object and the ledger of its round: the words of the base
value, the accumulators, the table and the counters each stand for their part of the live
deltas. -/
structure Accounts (cryptoShorthash : CryptoShorthash) (opening : Opening)
    (held : Multiset DeltaRewind) (committed : Multiset StorageDelta) (agreement : Agreement)
    (object : RevertableObject) : Prop where
  represents : Represents object.baseObj opening.requiredType agreement
  agreed : Agreed held committed agreement
  booked : Booked cryptoShorthash opening (live held committed) committed object
  solvent : Solvent opening (live held committed) committed

section Calls

variable {cryptoShorthash : CryptoShorthash} {opening : Opening}
  {held : Multiset DeltaRewind} {committed : Multiset StorageDelta} {agreement : Agreement}
  {object : RevertableObject} {delta : StorageDelta}

structure Pushed (cryptoShorthash : CryptoShorthash) (opening : Opening)
    (held : Multiset DeltaRewind) (committed : Multiset StorageDelta) (delta : StorageDelta)
    (object : RevertableObject) (rewind : DeltaRewind) (after : RevertableObject) : Prop where
  own : rewind.delta = delta
  accounts : ∃ agreement,
    Accounts cryptoShorthash opening (rewind ::ₘ held) committed agreement after
  affordable : Affordable opening (live held committed) committed delta
  capacity : after.newHashes.capacity = object.newHashes.capacity
  freeSlots : after.newHashes.freeSlots + slotsTaken delta = object.newHashes.freeSlots
  table : delta.inserted? = none → after.newHashes = object.newHashes
  word : Decided committed → after.baseObj = object.baseObj

/-- What a rejected push leaves: another swap id at most. -/
structure Rejected (cryptoShorthash : CryptoShorthash) (opening : Opening)
    (held : Multiset DeltaRewind) (committed : Multiset StorageDelta) (agreement : Agreement)
    (object after : RevertableObject) : Prop where
  accounts : Accounts cryptoShorthash opening held committed agreement after
  unchanged : after = { object with baseObj := after.baseObj }
  word : Decided committed → after.baseObj = object.baseObj

theorem accounts_base_obj {baseObj : RevertableBaseObject} {required : Agreement}
    (accounts : Accounts cryptoShorthash opening held committed agreement object)
    (represents : Represents baseObj opening.requiredType required)
    (agreed : Agreed held committed required) :
    Accounts cryptoShorthash opening held committed required
      { object with baseObj := baseObj } where
  represents := represents
  agreed := agreed
  booked := booked_base_obj accounts.booked baseObj
  solvent := accounts.solvent

/-- A delta that sets a base value either meets one of the obstacles or gets the
reservation of its family. A thread with no entry left throws at an insertion, unless
something refuses the delta first. -/
inductive PushOutcome (cryptoShorthash : CryptoShorthash) (opening : Opening)
    (held : Multiset DeltaRewind) (committed : Multiset StorageDelta) (agreement : Agreement)
    (ids : CallIds) (delta : StorageDelta) (object : RevertableObject) :
    Except Fault (Option DeltaRewind × RevertableObject) → Prop
  | accepted {rewind : DeltaRewind} {after : RevertableObject}
      (pushed : Pushed cryptoShorthash opening held committed delta object rewind after) :
      PushOutcome cryptoShorthash opening held committed agreement ids delta object
        (.ok (some rewind, after))
  | rejected {after : RevertableObject}
      (rejected : Rejected cryptoShorthash opening held committed agreement object after)
      (reason : ¬ Affordable opening (live held committed) committed delta ∨
        (slotsTaken delta = 1 ∧ object.newHashes.freeSlots = 0)) :
      PushOutcome cryptoShorthash opening held committed agreement ids delta object
        (.ok (none, after))
  | faulted {fault : Fault} (unimplemented : delta.implemented = false) :
      PushOutcome cryptoShorthash opening held committed agreement ids delta object (.error fault)
  | spins (classed : delta.class? ≠ none) (stuck : agreement.stuck) :
      PushOutcome cryptoShorthash opening held committed agreement ids delta object (.error .spin)
  | lost (unaffordable : ¬ Affordable opening (live held committed) committed delta ∨
        (slotsTaken delta = 1 ∧ object.newHashes.freeSlots = 0))
      (full : holderCount held = 255) :
      PushOutcome cryptoShorthash opening held committed agreement ids delta object (.error .spin)
  | exhausted (unserved : ¬ ids.Serves delta) :
      PushOutcome cryptoShorthash opening held committed agreement ids delta object
        (.error allocMaxReached)

theorem compatible_of_agreed (accounts : Accounts cryptoShorthash opening held committed agreement
      object) {value : StorageDeltaClass} (implemented : delta.implemented = true)
    (classed : delta.class? = some value) (allowed : typeAllows opening.requiredType value)
    (agrees : ∀ current, agreement.value? = some current → current = value) :
    Compatible opening (live held committed) delta where
  implemented := implemented
  allowed own same := by
    rw [classed] at same
    cases same
    exact allowed
  agreed own same other member otherValue otherClassed := by
    rw [classed] at same
    cases same
    exact (agrees otherValue (accounts.agreed.value other member otherValue otherClassed)).symm

theorem push_unclassed (accounts : Accounts cryptoShorthash opening held committed agreement object)
    (unclassed : delta.class? = none) (ids : CallIds) :
    PushOutcome cryptoShorthash opening held committed agreement ids delta object
      (object.tryAddDelta cryptoShorthash ids delta) := by
  cases delta with
  | deleteLast =>
      have light : StorageDelta.Weightless .deleteLast := ⟨rfl, rfl, rfl, rfl, rfl, rfl⟩
      have compatible : Compatible opening (live held committed) .deleteLast := by
        refine ⟨rfl, ?_, ?_⟩
        · intro value impossible
          cases impossible
        · intro value impossible
          cases impossible
      have affordable := affordable_of_weightless accounts.solvent compatible rfl rfl rfl rfl
      have reserved := reserved_self light object
      refine .accepted ⟨rfl, ⟨agreement, accounts.represents, ?_, ?_, ?_⟩, affordable, rfl, rfl,
        fun _ => rfl, fun _ => rfl⟩
      · exact agreed_detached accounts.agreed unclassed
      · rw [live_cons]
        exact booked_reserve accounts.booked reserved accounts.booked.sound
      · rw [live_cons]
        exact solvent_cons_of_affordable accounts.solvent affordable
  | unconstrainedInt64SetAdd setAdd => exact .faulted rfl
  | unconstrainedInt64SetMax setMax => exact .faulted rfl
  | unconstrainedInt64SetXor setXor => exact .faulted rfl
  | _ => cases unclassed

theorem value_backed (accounts : Accounts cryptoShorthash opening held committed agreement object)
    {value : StorageDeltaClass} (valued : agreement.value? = some value) :
    ∃ delta ∈ live held committed, delta.class? = some value := by
  have backed := accounts.agreed.backed
  have word := accounts.represents.word
  cases agreement with
  | undecided => cases valued
  | tentative current count =>
      have some_holder : 0 < holderCount held := by
        rw [← backed.1]
        exact word.1
      obtain ⟨rewind, member, holds⟩ := Multiset.countP_pos.mp some_holder
      obtain ⟨own, classed⟩ := (holds_iff rewind).mp holds
      have own_live : rewind.delta ∈ live held committed :=
        Multiset.mem_add.mpr (Or.inl (Multiset.mem_map_of_mem _ member))
      have same := accounts.agreed.value rewind.delta own_live own classed
      rw [valued] at same
      cases same
      exact ⟨rewind.delta, own_live, classed⟩
  | decided current =>
      cases valued
      obtain ⟨delta, member, classed⟩ := backed
      exact ⟨delta, Multiset.mem_of_le (committed_le_live held committed) member, classed⟩

theorem release_grant {required : Option ObjectType} {baseObj : RevertableBaseObject}
    (represents : Represents baseObj required agreement) (value : StorageDeltaClass) :
    (agreement.grant value).2.release = agreement := by
  have word := represents.word
  cases agreement with
  | undecided => rfl
  | tentative current count =>
      have more : count + 1 ≠ 1 := by
        have positive := word.1
        omega
      have kept : (Agreement.tentative current (count + 1)).release =
          .tentative current (count + 1 - 1) := if_neg more
      exact kept
  | decided current => rfl

theorem push_classed (accounts : Accounts cryptoShorthash opening held committed agreement object)
    {value : StorageDeltaClass} (classed : delta.class? = some value) (ids : CallIds) :
    PushOutcome cryptoShorthash opening held committed agreement ids delta object
      (object.tryAddDelta cryptoShorthash ids delta) := by
  have implemented : delta.implemented = true := by
    cases delta <;> first | rfl | cases classed
  rw [try_add_delta_classed classed, RevertableObject.reserve]
  by_cases allowed : typeAllows opening.requiredType value
  · by_cases stuck : agreement.stuck
    · rw [try_set_stuck accounts.represents allowed stuck]
      refine .spins ?_ stuck
      rw [classed]
      exact Option.some_ne_none value
    · by_cases agrees : ∀ current, agreement.value? = some current → current = value
      · obtain ⟨baseObj, granted, represents, sameWord⟩ :=
          try_set_granted ids.set accounts.represents allowed stuck agrees
        have compatible := compatible_of_agreed accounts implemented classed allowed agrees
        have booked := booked_base_obj accounts.booked baseObj
        have word : Decided committed → baseObj = object.baseObj := by
          intro decided
          obtain ⟨current, same⟩ := decided_agreement accounts.agreed decided
          exact sameWord current same
        rw [granted]
        obtain ⟨unserved, exhausted⟩ | ⟨answer, admitted, admission⟩ :=
          admission_spec booked accounts.solvent ids compatible
        · simp only [bind, Except.bind, exhausted]
          exact .exhausted unserved
        simp only [bind, Except.bind, admitted]
        cases answer with
        | some after =>
            obtain ⟨affordable, reserved, sound, slots, table⟩ := admission.granted after rfl
            refine .accepted ⟨rfl, ⟨(agreement.grant value).2, ?_, ?_, ?_, ?_⟩, affordable,
              reserved.capacity, slots, table, fun decided => reserved.baseObj.trans (word decided)⟩
            · rw [reserved.baseObj]
              exact represents
            · exact agreed_grant accounts.agreed classed agrees
            · rw [live_cons]
              exact booked_reserve booked reserved sound
            · rw [live_cons]
              exact solvent_cons_of_affordable accounts.solvent affordable
        | none =>
            have reason : ¬ Affordable opening (live held committed) committed delta ∨
                (slotsTaken delta = 1 ∧ object.newHashes.freeSlots = 0) := by
              by_cases affordable : Affordable opening (live held committed) committed delta
              · exact Or.inr (admission.refused rfl affordable)
              · exact Or.inl affordable
            have restored := release_grant accounts.represents value
            have undecided : ∀ {word : Prop}, (∀ current, agreement ≠ .decided current) →
                Decided committed → word := by
              intro word other decided
              obtain ⟨current, same⟩ := decided_agreement accounts.agreed decided
              exact absurd same (other current)
            cases agreement with
            | decided current =>
                simp only [Agreement.grant, Rewind.destroy, Bool.false_eq_true, if_false]
                exact .rejected ⟨accounts_base_obj accounts represents accounts.agreed, rfl, word⟩
                  reason
            | undecided =>
                have free : ¬ (Agreement.undecided.grant value).2.stuck := by
                  intro full
                  cases full
                obtain ⟨reverted, returned, again, _⟩ := revert_represents ids.undo
                  represents free (by simp [Agreement.grant, Agreement.value?])
                rw [restored] at again
                simp only [Agreement.grant, Rewind.destroy, if_true, returned]
                exact .rejected ⟨accounts_base_obj accounts again accounts.agreed, rfl,
                    undecided fun _ impossible => by cases impossible⟩
                    reason
            | tentative current count =>
                by_cases full : count + 1 = 256
                · have lost := revert_stuck ids.undo represents full
                  have counted := accounts.agreed.backed.1
                  simp only [Agreement.grant, Rewind.destroy, if_true, lost]
                  exact .lost reason (by omega)
                · obtain ⟨reverted, returned, again, _⟩ := revert_represents ids.undo
                    represents full (by simp [Agreement.grant, Agreement.value?])
                  rw [restored] at again
                  simp only [Agreement.grant, Rewind.destroy, if_true, returned]
                  exact .rejected ⟨accounts_base_obj accounts again accounts.agreed, rfl,
                    undecided fun _ impossible => by cases impossible⟩
                    reason
      · push Not at agrees
        obtain ⟨current, valued, different⟩ := agrees
        obtain ⟨other, member, otherClassed⟩ := value_backed accounts valued
        rw [try_set_conflict accounts.represents allowed stuck valued different]
        refine .rejected ⟨accounts, rfl, fun _ => rfl⟩ (Or.inl ?_)
        intro affordable
        exact different (affordable.agreed value classed other member current otherClassed).symm
  · rw [try_set_wrong_type accounts.represents allowed]
    refine .rejected ⟨accounts, rfl, fun _ => rfl⟩ (Or.inl ?_)
    intro affordable
    exact allowed (affordable.allowed value classed)

theorem push_outcome (accounts : Accounts cryptoShorthash opening held committed agreement object)
    (delta : StorageDelta) (ids : CallIds) :
    PushOutcome cryptoShorthash opening held committed agreement ids delta object
      (object.tryAddDelta cryptoShorthash ids delta) := by
  cases classed : delta.class? with
  | none => exact push_unclassed accounts classed ids
  | some value => exact push_classed accounts classed ids

/-- A push is accepted when the ledger affords it, the count is not full and an
insertion finds a free slot. -/
theorem push_accepts (accounts : Accounts cryptoShorthash opening held committed agreement object)
    (affordable : Affordable opening (live held committed) committed delta)
    (free : delta.class? = none ∨ ¬ agreement.stuck)
    (slots : slotsTaken delta ≤ object.newHashes.freeSlots) {ids : CallIds}
    (served : ids.Serves delta) :
    ∃ rewind after, object.tryAddDelta cryptoShorthash ids delta = .ok (some rewind, after) ∧
      Pushed cryptoShorthash opening held committed delta object rewind after := by
  have outcome : PushOutcome cryptoShorthash opening held committed agreement ids delta object
      (object.tryAddDelta cryptoShorthash ids delta) := push_outcome accounts delta ids
  generalize result : object.tryAddDelta cryptoShorthash ids delta = answer at outcome
  cases outcome with
  | accepted pushed => exact ⟨_, _, rfl, pushed⟩
  | rejected rejected reason =>
      rcases reason with unaffordable | ⟨insertion, full⟩
      · exact absurd affordable unaffordable
      · omega
  | faulted unimplemented =>
      rw [affordable.implemented] at unimplemented
      cases unimplemented
  | spins classed stuck =>
      rcases free with unclassed | free
      · exact absurd unclassed classed
      · exact absurd stuck free
  | lost unaffordable full =>
      rcases unaffordable with unaffordable | ⟨insertion, full⟩
      · exact absurd affordable unaffordable
      · omega
  | exhausted unserved => exact absurd served unserved

/-! ## Committing and destroying a rewind -/

theorem rewind_commit_spec {rewind : DeltaRewind}
    (accounts : Accounts cryptoShorthash opening (rewind ::ₘ held) committed agreement object) :
    ∃ after, rewind.commit object = .ok after ∧
      (∃ agreement, Accounts cryptoShorthash opening held (rewind.delta ::ₘ committed) agreement
        after) ∧
      after.newHashes = object.newHashes := by
  have booked := accounts.booked
  have solvent := accounts.solvent
  rw [live_cons] at booked solvent
  have included : rewind.delta ::ₘ committed ≤ rewind.delta ::ₘ live held committed :=
    Multiset.cons_le_cons _ (committed_le_live held committed)
  obtain ⟨after, returned, fixed⟩ := commit_delta_spec booked solvent included
  have represents : Represents after.baseObj opening.requiredType agreement := by
    rw [fixed.baseObj]
    exact accounts.represents
  have bookedAfter := booked_fix booked fixed
  have solventAfter : Solvent opening (rewind.delta ::ₘ live held committed)
      (rewind.delta ::ₘ committed) :=
    solvent_mono solvent (le_refl _) (Multiset.le_cons_self committed rewind.delta)
  have member : rewind ∈ rewind ::ₘ held := Multiset.mem_cons_self rewind held
  refine ⟨{ after with baseObj := rewind.rewindBase.commit after.baseObj }, ?_, ?_,
    fixed.newHashes⟩
  · simp only [DeltaRewind.commit, returned, bind, Except.bind]
  · cases holds : rewind.holds with
    | false =>
        have loose := accounts.agreed.loose rewind member (idle_class holds)
        refine ⟨agreement, ?_, agreed_fix_idle accounts.agreed holds, ?_, ?_⟩
        · simp only [Rewind.commit, loose, Bool.false_eq_true, if_false]
          exact represents
        · rw [live_committed]
          exact booked_base_obj bookedAfter _
        · rw [live_committed]
          exact solventAfter
    | true =>
        obtain ⟨value, classed⟩ := (holds_iff rewind).mp holds
        have own : rewind.delta ∈ live (rewind ::ₘ held) committed := by
          rw [live_cons]
          exact Multiset.mem_cons_self _ _
        have valued := accounts.agreed.value rewind.delta own value classed
        refine ⟨agreement.fix, ?_, agreed_fix accounts.agreed holds, ?_, ?_⟩
        · cases reverting : rewind.rewindBase.doRevert with
          | true =>
              simp only [Rewind.commit, reverting, if_true]
              apply commit_represents represents
              rw [valued]
              exact Option.some_ne_none value
          | false =>
              -- Only a decided value gives out rewinds that do not revert.
              have backed := accounts.agreed.backed
              cases agreement with
              | undecided => cases valued
              | tentative current count =>
                  have armed := backed.2.1 rewind member holds
                  rw [reverting] at armed
                  cases armed
              | decided current =>
                  simp only [Rewind.commit, reverting, Bool.false_eq_true, if_false]
                  exact represents
        · rw [live_committed]
          exact booked_base_obj bookedAfter _
        · rw [live_committed]
          exact solventAfter

structure Destroyed (cryptoShorthash : CryptoShorthash) (opening : Opening)
    (held : Multiset DeltaRewind) (committed : Multiset StorageDelta) (delta : StorageDelta)
    (object after : RevertableObject) : Prop where
  accounts : ∃ agreement, Accounts cryptoShorthash opening held committed agreement after
  capacity : after.newHashes.capacity = object.newHashes.capacity
  freeSlots : after.newHashes.freeSlots = object.newHashes.freeSlots
  table : delta.inserted? = none → after.newHashes = object.newHashes
  word : Decided committed → after.baseObj = object.baseObj

theorem rewind_destroy_spec {rewind : DeltaRewind}
    (accounts : Accounts cryptoShorthash opening (rewind ::ₘ held) committed agreement object)
    (newId : UniqueId) :
    (rewind.holds = true ∧ agreement.stuck ∧
      rewind.destroy cryptoShorthash newId object = .error .spin) ∨
    ∃ after, rewind.destroy cryptoShorthash newId object = .ok after ∧
      Destroyed cryptoShorthash opening held committed rewind.delta object after := by
  have booked := accounts.booked
  have solvent := accounts.solvent
  rw [live_cons] at booked solvent
  have member : rewind ∈ rewind ::ₘ held := Multiset.mem_cons_self rewind held
  have armed := accounts.agreed.armed rewind member
  obtain ⟨reverted, returned, undone⟩ :=
    revert_spec booked solvent (committed_le_live held committed)
  have bookedAfter := booked_release booked undone.reserved undone.sound
  have solventAfter : Solvent opening (live held committed) committed :=
    solvent_mono solvent (Multiset.le_cons_self _ _) (le_refl _)
  have represents : Represents reverted.baseObj opening.requiredType agreement := by
    rw [← undone.reserved.baseObj]
    exact accounts.represents
  have capacity := undone.reserved.capacity.symm
  have sameBase : reverted.baseObj = object.baseObj := undone.reserved.baseObj.symm
  unfold DeltaRewind.destroy DeltaRewind.undo
  simp only [armed, if_true, returned, bind, Except.bind]
  cases holds : rewind.holds with
  | false =>
      have loose := accounts.agreed.loose rewind member (idle_class holds)
      simp only [Rewind.destroy, loose, Bool.false_eq_true, if_false]
      refine Or.inr ⟨_, rfl, ⟨agreement, represents, agreed_drop accounts.agreed holds,
        booked_base_obj bookedAfter _, solventAfter⟩, capacity, undone.freeSlots, undone.table,
        fun _ => sameBase⟩
  | true =>
      have agreedAfter := agreed_release accounts.agreed holds
      cases reverting : rewind.rewindBase.doRevert with
      | false =>
          have backed := accounts.agreed.backed
          simp only [Rewind.destroy, reverting, Bool.false_eq_true, if_false]
          refine Or.inr ⟨_, rfl, ⟨agreement.release, ?_, agreedAfter,
            booked_base_obj bookedAfter _, solventAfter⟩, capacity, undone.freeSlots, undone.table,
            fun _ => sameBase⟩
          cases agreement with
          | undecided => exact represents
          | decided current => exact represents
          | tentative current count =>
              have armedBase := backed.2.1 rewind member holds
              rw [reverting] at armedBase
              cases armedBase
      | true =>
          simp only [Rewind.destroy, reverting, if_true]
          by_cases stuck : agreement.stuck
          · rw [revert_stuck newId represents stuck]
            exact Or.inl ⟨trivial, stuck, rfl⟩
          · obtain ⟨value, classed⟩ := (holds_iff rewind).mp holds
            have own : rewind.delta ∈ live (rewind ::ₘ held) committed := by
              rw [live_cons]
              exact Multiset.mem_cons_self _ _
            have valued : agreement.value? ≠ none := by
              rw [accounts.agreed.value rewind.delta own value classed]
              exact Option.some_ne_none value
            obtain ⟨baseObj, released, again, sameWord⟩ :=
              revert_represents newId represents stuck valued
            rw [released]
            refine Or.inr ⟨_, rfl, ⟨agreement.release, again, agreedAfter,
              booked_base_obj bookedAfter _, solventAfter⟩, capacity, undone.freeSlots,
              undone.table, ?_⟩
            intro decided
            obtain ⟨current, same⟩ := decided_agreement accounts.agreed decided
            exact (sameWord current same).trans sameBase

/-- On a full count the destructor of a holder never returns. Each turn of its loop reads
the same two words and starts again. -/
theorem destroy_stuck {rewind : DeltaRewind}
    (accounts : Accounts cryptoShorthash opening (rewind ::ₘ held) committed agreement object)
    (newId : UniqueId) (holds : rewind.holds = true) (stuck : agreement.stuck) :
    rewind.destroy cryptoShorthash newId object = .error .spin := by
  have booked := accounts.booked
  have solvent := accounts.solvent
  rw [live_cons] at booked solvent
  have member : rewind ∈ rewind ::ₘ held := Multiset.mem_cons_self rewind held
  have armed := accounts.agreed.armed rewind member
  obtain ⟨reverted, returned, undone⟩ :=
    revert_spec booked solvent (committed_le_live held committed)
  have represents : Represents reverted.baseObj opening.requiredType agreement := by
    rw [← undone.reserved.baseObj]
    exact accounts.represents
  have reverting : rewind.rewindBase.doRevert = true := by
    have backed := accounts.agreed.backed
    cases agreement with
    | undecided => exact stuck.elim
    | decided current => exact stuck.elim
    | tentative current count => exact backed.2.1 rewind member holds
  unfold DeltaRewind.destroy DeltaRewind.undo
  simp only [armed, if_true, returned, bind, Except.bind, Rewind.destroy, reverting,
    revert_stuck newId represents stuck]

/-- The count of one key is full and no committed delta has decided its value. -/
def Full (committed : Multiset StorageDelta) (held : Multiset DeltaRewind) : Prop :=
  256 ≤ holderCount held ∧ ¬ Decided committed

theorem holder_count_le
    (accounts : Accounts cryptoShorthash opening held committed agreement object)
    (undecided : ¬ Decided committed) : holderCount held ≤ 256 := by
  have backed := accounts.agreed.backed
  have word := accounts.represents.word
  cases agreement with
  | undecided =>
      have nobody : holderCount held = 0 := by
        apply Multiset.countP_eq_zero.mpr
        intro rewind member holds
        obtain ⟨value, classed⟩ := (holds_iff rewind).mp holds
        cases accounts.agreed.value rewind.delta
          (Multiset.mem_add.mpr (Or.inl (Multiset.mem_map_of_mem _ member))) value classed
      omega
  | tentative value count =>
      rw [← backed.1]
      exact word.2.1
  | decided value =>
      obtain ⟨delta, member, classed⟩ := backed
      exact absurd ⟨delta, member, classed ▸ Option.some_ne_none value⟩ undecided

theorem stuck_iff_full
    (accounts : Accounts cryptoShorthash opening held committed agreement object) :
    agreement.stuck ↔ Full committed held := by
  have unclassed : (∀ delta ∈ committed, delta.class? = none) ↔ ¬ Decided committed := by
    simp only [Decided, not_exists, not_and, ne_eq, not_not]
  rw [stuck_iff accounts.agreed, unclassed, Full]
  constructor
  · intro ⟨counted, undecided⟩
    exact ⟨counted.ge, undecided⟩
  · intro ⟨counted, undecided⟩
    exact ⟨le_antisymm (holder_count_le accounts undecided) counted, undecided⟩

theorem full_mono {few many : Multiset DeltaRewind}
    (fewer : few ≤ many) (full : Full committed few) : Full committed many := by
  have counted : holderCount few ≤ holderCount many := Multiset.countP_le_of_le _ fewer
  exact ⟨full.1.trans counted, full.2⟩

/-- A holder fills the count at least as much as any other rewind. -/
theorem full_cons {rest : Multiset DeltaRewind}
    {holder : DeltaRewind} (holds : holder.holds = true) (rewind : DeltaRewind)
    (full : Full committed (rewind ::ₘ rest)) : Full committed (holder ::ₘ rest) := by
  have counted := full.1
  rw [holder_count_cons] at counted
  refine ⟨?_, full.2⟩
  rw [holder_count_cons, holds, if_pos rfl]
  split_ifs at counted <;> omega

/-- The destructor of a holder returns exactly off a full count. -/
theorem destroy_returns_iff {rewind : DeltaRewind}
    (accounts : Accounts cryptoShorthash opening (rewind ::ₘ held) committed agreement object)
    (newId : UniqueId) :
    (∃ next, rewind.destroy cryptoShorthash newId object = .ok next) ↔
      (rewind.holds = true → ¬ Full committed (rewind ::ₘ held)) := by
  have stuck := stuck_iff_full accounts
  constructor
  · intro ⟨next, returned⟩ holds full
    have spins := destroy_stuck accounts newId holds (stuck.mpr full)
    rw [returned] at spins
    cases spins
  · intro room
    rcases rewind_destroy_spec accounts newId with ⟨holds, full, _⟩ | ⟨next, returned, _⟩
    · exact absurd (stuck.mp full) (room holds)
    · exact ⟨next, returned⟩

/-- On a decided base value a refused push has nothing to give back. -/
theorem push_decided_returns
    (accounts : Accounts cryptoShorthash opening held committed agreement object)
    {value current : StorageDeltaClass} (classed : delta.class? = some value)
    (decided : agreement = .decided current) {ids : CallIds} (served : ids.Serves delta) :
    ∃ answer after, object.tryAddDelta cryptoShorthash ids delta = .ok (answer, after) := by
  subst decided
  have implemented : delta.implemented = true := by
    cases delta <;> first | rfl | cases classed
  have free : ¬ (Agreement.decided current).stuck := fun impossible => impossible.elim
  rw [try_add_delta_classed classed, RevertableObject.reserve]
  by_cases allowed : typeAllows opening.requiredType value
  · by_cases agrees : ∀ other, (Agreement.decided current).value? = some other → other = value
    · obtain ⟨baseObj, granted, _, _⟩ :=
        try_set_granted ids.set accounts.represents allowed free agrees
      have booked := booked_base_obj accounts.booked baseObj
      obtain ⟨unserved, _⟩ | ⟨answer, admitted, _⟩ := admission_spec booked accounts.solvent ids
        (compatible_of_agreed accounts implemented classed allowed agrees)
      · exact absurd served unserved
      rw [granted]
      simp only [bind, Except.bind, admitted]
      cases answer with
      | some after => exact ⟨_, _, rfl⟩
      | none => exact ⟨_, _, rfl⟩
    · push Not at agrees
      obtain ⟨other, valued, different⟩ := agrees
      rw [try_set_conflict accounts.represents allowed free valued different]
      exact ⟨_, _, rfl⟩
  · rw [try_set_wrong_type accounts.represents allowed]
    exact ⟨_, _, rfl⟩

/-- A push returns while fewer than 255 rewinds hold an undecided base value and the
thread has an entry left for an insertion. -/
theorem push_returns
    (accounts : Accounts cryptoShorthash opening held committed agreement object)
    (implemented : delta.implemented = true)
    (room : delta.class? ≠ none → holderCount held < 255 ∨ Decided committed) {ids : CallIds}
    (served : ids.Serves delta) :
    ∃ answer after, object.tryAddDelta cryptoShorthash ids delta = .ok (answer, after) := by
  cases classed : delta.class? with
  | none =>
      cases delta with
      | deleteLast => exact ⟨_, _, rfl⟩
      | unconstrainedInt64SetAdd setAdd => cases implemented
      | unconstrainedInt64SetMax setMax => cases implemented
      | unconstrainedInt64SetXor setXor => cases implemented
      | _ => cases classed
  | some value =>
      rcases room (classed ▸ Option.some_ne_none value) with few | decided
      · have outcome := push_outcome accounts delta ids
        generalize result : object.tryAddDelta cryptoShorthash ids delta = answer at outcome
        cases outcome with
        | accepted pushed => exact ⟨_, _, rfl⟩
        | rejected rejected reason => exact ⟨_, _, rfl⟩
        | faulted unimplemented =>
            rw [implemented] at unimplemented
            cases unimplemented
        | spins classed stuck =>
            have full := ((stuck_iff accounts.agreed).mp stuck).1
            omega
        | lost reason full => omega
        | exhausted unserved => exact absurd served unserved
      · obtain ⟨current, same⟩ := decided_agreement accounts.agreed decided
        exact push_decided_returns accounts classed same served

end Calls

end Scs
