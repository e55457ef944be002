import Scs.Xdr.Storage
import Mathlib.Data.Nat.Bitwise

/-!
# Base-value agreement (`RevertableBaseObject`, `threadlocal/uid.h`)

The tag word is `<unique id, 48 bits> <active count, 8 bits> <7 empty>
<is_finalized flag, 1 bit>`; the pointer is a separate word. Calls are taken
one at a time, so a compare-exchange on a tag just loaded succeeds and an
attempt that sees a torn pair sees the same pair at every retry.
-/

namespace Scs

set_option autoImplicit false

/-! ## Swap ids -/

/-- A value of `ThreadlocalContextStore::get_uid`: a multiple of `2 ^ 16`. -/
structure UniqueId where
  word : UInt64
  aligned : word.toNat % 2 ^ 16 = 0

/-- The per-thread counter behind `get_uid`. -/
structure UniqueIdentifier where
  id : UInt64
  aligned : id.toNat % 2 ^ 16 = 0

namespace UniqueIdentifier

def inc : UInt64 := 0x10000

/-- The counter of the thread with identifier `thread`, which starts at
`thread << 55`. -/
def create (thread : UInt64) : UniqueIdentifier where
  id := thread <<< 55
  aligned := by
    have shift : (55 : UInt64).toNat % 64 = 55 := rfl
    rw [UInt64.toNat_shiftLeft, shift, Nat.shiftLeft_eq]
    omega

def get (identifier : UniqueIdentifier) : UniqueId × UniqueIdentifier :=
  have aligned : (identifier.id + inc).toNat % 2 ^ 16 = 0 := by
    have before := identifier.aligned
    have step : inc.toNat = 2 ^ 16 := rfl
    rw [UInt64.toNat_add, step]
    omega
  ({ word := identifier.id + inc, aligned := aligned },
    { id := identifier.id + inc, aligned := aligned })

end UniqueIdentifier

/-! ## Tag helpers -/

def swapId (oldTag : UInt64) (newId : UniqueId) : UInt64 := newId.word + (oldTag &&& 0xFFFF)

def addInflight (input : UInt64) : UInt64 := input + ((1 : UInt64) <<< 8)

def removeInflight (input : UInt64) : UInt64 := input - ((1 : UInt64) <<< 8)

def hasInflight (input : UInt64) : Bool := (input &&& 0xFF00) != 0

def isFinalized (input : UInt64) : Bool := (input &&& 1) != 0

def expectNonnull (input : UInt64) : Bool := (input &&& 0xFFFF) != 0

def lowWord (tag : UInt64) : Nat := tag.toNat % 2 ^ 16

theorem to_nat_and_mask (input : UInt64) : (input &&& 0xFFFF).toNat = lowWord input := by
  have mask : (0xFFFF : UInt64).toNat = 2 ^ 16 - 1 := rfl
  rw [UInt64.toNat_and, mask, Nat.and_two_pow_sub_one_eq_mod]
  rfl

theorem bne_zero_iff (word : UInt64) : (word != 0) = true ↔ word.toNat ≠ 0 := by
  have zero : (0 : UInt64).toNat = 0 := rfl
  rw [bne_iff_ne, Ne, ← UInt64.toNat_inj, zero]

theorem expect_nonnull_iff (tag : UInt64) : expectNonnull tag = true ↔ lowWord tag ≠ 0 := by
  rw [expectNonnull, bne_zero_iff, to_nat_and_mask]

theorem is_finalized_iff (tag : UInt64) : isFinalized tag = true ↔ lowWord tag % 2 = 1 := by
  have mask : (1 : UInt64).toNat = 1 := rfl
  rw [isFinalized, bne_zero_iff, UInt64.toNat_and, mask, Nat.and_one_is_mod]
  unfold lowWord
  omega

theorem to_nat_and_count (tag : UInt64) : (tag &&& 0xFF00).toNat = lowWord tag / 256 * 256 := by
  have mask : (0xFF00 : UInt64).toNat = (2 ^ 8 - 1) <<< 8 := rfl
  have shifted : tag.toNat &&& (2 ^ 8 - 1) <<< 8 = (tag.toNat >>> 8 &&& (2 ^ 8 - 1)) <<< 8 := by
    apply Nat.eq_of_testBit_eq
    intro bit
    simp only [Nat.testBit_and, Nat.testBit_shiftLeft, Nat.testBit_shiftRight]
    by_cases high : 8 ≤ bit
    · simp only [high, decide_true, Bool.true_and, Nat.add_sub_cancel' high]
    · simp only [high, decide_false, Bool.false_and, Bool.and_false]
  rw [UInt64.toNat_and, mask, shifted, Nat.and_two_pow_sub_one_eq_mod,
    Nat.shiftRight_eq_div_pow, Nat.shiftLeft_eq]
  unfold lowWord
  omega

theorem has_inflight_iff (tag : UInt64) : hasInflight tag = true ↔ lowWord tag / 256 ≠ 0 := by
  rw [hasInflight, bne_zero_iff, to_nat_and_count]
  omega

theorem low_word_swap_id (tag : UInt64) (newId : UniqueId) :
    lowWord (swapId tag newId) = lowWord tag := by
  have aligned := newId.aligned
  unfold swapId
  rw [lowWord, UInt64.toNat_add, to_nat_and_mask]
  unfold lowWord
  omega

theorem low_word_add_inflight (tag : UInt64) :
    lowWord (addInflight tag) = (lowWord tag + 256) % 2 ^ 16 := by
  have one : ((1 : UInt64) <<< 8).toNat = 256 := rfl
  unfold addInflight lowWord
  rw [UInt64.toNat_add, one]
  omega

theorem low_word_remove_inflight (tag : UInt64) :
    lowWord (removeInflight tag) = (lowWord tag + (2 ^ 16 - 256)) % 2 ^ 16 := by
  have one : ((1 : UInt64) <<< 8).toNat = 256 := rfl
  have bound := tag.toNat_lt
  unfold removeInflight lowWord
  rw [UInt64.toNat_sub, one]
  omega

theorem low_word_or_one (tag : UInt64) : lowWord (tag ||| 1) = lowWord tag / 2 * 2 + 1 := by
  have one : (1 : UInt64).toNat = 1 := rfl
  have split : tag.toNat ||| 1 = tag.toNat / 2 * 2 + 1 := by
    have halves : (tag.toNat ||| 1) / 2 = tag.toNat / 2 := by
      have shifted : (tag.toNat ||| 1) >>> 1 = tag.toNat >>> 1 := by
        rw [Nat.shiftRight_or_distrib]
        simp
      simpa only [Nat.shiftRight_eq_div_pow, pow_one] using shifted
    have odd : (tag.toNat ||| 1) % 2 = 1 := Nat.or_mod_two_eq_one.mpr (Or.inr rfl)
    omega
  unfold lowWord
  rw [UInt64.toNat_or, one, split]
  omega

/-! ## The object -/

structure RevertableBaseObject where
  tag : UInt64
  obj : Option StorageDeltaClass
  requiredType : Option ObjectType
  deriving DecidableEq, Repr

/-- `Rewind`, without its pointer to the object it belongs to. -/
structure Rewind where
  doRevert : Bool
  deriving DecidableEq, Repr

/-- The first `fuel` turns of a loop whose body writes nothing before it
continues: the body runs on the same state at every turn. -/
def turns {Result : Type} (body : Option Result) : Nat → Option Result
  | 0 => none
  | fuel + 1 =>
      match body with
      | some result => some result
      | none => turns body fuel

def whileTrue {Result : Type} : Option Result → Except Fault Result
  | some result => .ok result
  | none => .error .spin

theorem turns_succ {Result : Type} (body : Option Result) (fuel : Nat) :
    turns body (fuel + 1) = body := by
  induction fuel with
  | zero => cases body <;> rfl
  | succ fuel induction =>
      cases body with
      | some result => rfl
      | none => exact induction

/-- The loop spins exactly when no number of turns makes it return. -/
theorem while_true_spins {Result : Type} (body : Option Result) :
    whileTrue body = .error .spin ↔ ∀ fuel, turns body fuel = none := by
  constructor
  · intro spins fuel
    cases fuel with
    | zero => rfl
    | succ fuel =>
        rw [turns_succ]
        cases body with
        | some result => cases spins
        | none => rfl
  · intro never
    have first := never 1
    rw [turns_succ] at first
    rw [first]
    rfl

namespace RevertableBaseObject

def fresh : RevertableBaseObject where
  tag := 0
  obj := none
  requiredType := none

def ofObject (obj : StorageObject) : RevertableBaseObject where
  tag := 0
  obj := none
  requiredType := some obj.body.type

def clearRequiredType (base : RevertableBaseObject) : RevertableBaseObject :=
  { base with requiredType := none }

/-- One turn of the loop in `try_set`; `none` is `continue`. -/
def trySetAttempt (newId : UniqueId) (newObj : StorageDeltaClass) (base : RevertableBaseObject) :
    Option (Option Rewind × RevertableBaseObject) :=
  let t := base.tag
  if expectNonnull t && base.obj.isNone then none
  else if !expectNonnull t && base.obj.isSome then none
  else match base.obj with
    | none =>
        let newTag := addInflight (swapId t newId)
        some (some { doRevert := true }, { base with tag := newTag, obj := some newObj })
    | some current =>
        if current ≠ newObj then some (none, base)
        else if isFinalized t then some (some { doRevert := false }, base)
        else
          let newTag := addInflight (swapId t newId)
          some (some { doRevert := true }, { base with tag := newTag })

def trySet (newId : UniqueId) (newObj : StorageDeltaClass) (base : RevertableBaseObject) :
    Except Fault (Option Rewind × RevertableBaseObject) :=
  match base.requiredType with
  | some required =>
      if newObj.type ≠ required then .ok (none, base)
      else whileTrue (trySetAttempt newId newObj base)
  | none => whileTrue (trySetAttempt newId newObj base)

def commit (base : RevertableBaseObject) : RevertableBaseObject :=
  { base with tag := base.tag ||| 1 }

def revertAttempt (newId : UniqueId) (base : RevertableBaseObject) :
    Option RevertableBaseObject :=
  let t := base.tag
  if expectNonnull t && base.obj.isNone then none
  else if !expectNonnull t && base.obj.isSome then none
  else if isFinalized t then some base
  else
    let newTag := removeInflight (swapId t newId)
    if !hasInflight newTag then some { base with tag := newTag, obj := none }
    else some { base with tag := newTag }

def revert (newId : UniqueId) (base : RevertableBaseObject) :
    Except Fault RevertableBaseObject :=
  whileTrue (revertAttempt newId base)

def commitRoundAndReset (base : RevertableBaseObject) :
    Option StorageDeltaClass × RevertableBaseObject :=
  match base.obj with
  | none => (none, { base with tag := 0 })
  | some value => (some value, { tag := 0, obj := none, requiredType := some value.type })

def rewindRound (base : RevertableBaseObject) : RevertableBaseObject :=
  { base with tag := 0, obj := none }

end RevertableBaseObject

namespace Rewind

def detached : Rewind where
  doRevert := false

def commit (rewind : Rewind) (base : RevertableBaseObject) : RevertableBaseObject :=
  if rewind.doRevert then base.commit else base

def destroy (newId : UniqueId) (rewind : Rewind) (base : RevertableBaseObject) :
    Except Fault RevertableBaseObject :=
  if rewind.doRevert then base.revert newId else .ok base

end Rewind

/-! ## What the object agrees on

The abstract state: no value yet, a value that stands while some rewind on it
is open, or a value fixed for the rest of the round.
-/

inductive Agreement where
  | undecided
  | tentative (value : StorageDeltaClass) (holders : Nat)
  | decided (value : StorageDeltaClass)
  deriving DecidableEq, Repr

namespace Agreement

def value? : Agreement → Option StorageDeltaClass
  | .undecided => none
  | .tentative value _ => some value
  | .decided value => some value

/-- The state after a set of `value` is granted, and the rewind it gives. -/
def grant (value : StorageDeltaClass) : Agreement → Rewind × Agreement
  | .undecided => ({ doRevert := true }, .tentative value 1)
  | .tentative current holders => ({ doRevert := true }, .tentative current (holders + 1))
  | .decided current => ({ doRevert := false }, .decided current)

def release : Agreement → Agreement
  | .undecided => .undecided
  | .tentative current holders =>
      if holders = 1 then .undecided else .tentative current (holders - 1)
  | .decided current => .decided current

def fix : Agreement → Agreement
  | .undecided => .undecided
  | .tentative current _ => .decided current
  | .decided current => .decided current

/-- The count field is full: it reads zero while the pointer is not null. -/
def stuck : Agreement → Prop
  | .tentative _ holders => holders = 256
  | _ => False

end Agreement

/-- The words of the object stand for an agreement. A count of 256 is
represented too: its field has wrapped to zero. -/
structure Represents (base : RevertableBaseObject) (required : Option ObjectType)
    (agreement : Agreement) : Prop where
  requiredType : base.requiredType = required
  obj : base.obj = agreement.value?
  word : match agreement with
    | .undecided => lowWord base.tag = 0
    | .tentative _ holders =>
        0 < holders ∧ holders ≤ 256 ∧ lowWord base.tag = holders * 256 % 2 ^ 16
    | .decided _ => lowWord base.tag % 2 = 1

theorem fresh_represents : Represents RevertableBaseObject.fresh none .undecided := by
  exact ⟨rfl, rfl, rfl⟩

theorem of_object_represents (obj : StorageObject) :
    Represents (RevertableBaseObject.ofObject obj) (some obj.body.type) .undecided := by
  exact ⟨rfl, rfl, rfl⟩

section Calls

variable {base : RevertableBaseObject} {required : Option ObjectType} {agreement : Agreement}

/-- Whether the class may be set at all on an object of the required type. -/
def typeAllows (required : Option ObjectType) (value : StorageDeltaClass) : Prop :=
  ∀ type, required = some type → value.type = type

theorem try_set_wrong_type {newId : UniqueId} {value : StorageDeltaClass}
    (represents : Represents base required agreement) (wrong : ¬ typeAllows required value) :
    base.trySet newId value = .ok (none, base) := by
  unfold typeAllows at wrong
  push Not at wrong
  obtain ⟨type, same, different⟩ := wrong
  unfold RevertableBaseObject.trySet
  rw [represents.requiredType, same]
  exact if_pos different

theorem try_set_loop {newId : UniqueId} {value : StorageDeltaClass}
    (represents : Represents base required agreement) (allowed : typeAllows required value) :
    base.trySet newId value = whileTrue (base.trySetAttempt newId value) := by
  unfold RevertableBaseObject.trySet
  rw [represents.requiredType]
  cases required with
  | none => rfl
  | some type => exact if_neg (not_not.mpr (allowed type rfl))

theorem try_set_stuck {newId : UniqueId} {value : StorageDeltaClass}
    (represents : Represents base required agreement) (allowed : typeAllows required value)
    (stuck : agreement.stuck) : base.trySet newId value = .error .spin := by
  rw [try_set_loop represents allowed]
  cases agreement with
  | undecided => exact stuck.elim
  | decided current => exact stuck.elim
  | tentative current holders =>
      have full : holders = 256 := stuck
      have word := represents.word.2.2
      rw [full] at word
      have unset : expectNonnull base.tag = false := by
        rw [← Bool.not_eq_true, expect_nonnull_iff]
        omega
      have pointed := represents.obj
      simp only [Agreement.value?] at pointed
      simp [RevertableBaseObject.trySetAttempt, unset, pointed, whileTrue]

/-- A value other than the one agreed on is refused without a trace. -/
theorem try_set_conflict {newId : UniqueId} {value current : StorageDeltaClass}
    (represents : Represents base required agreement) (allowed : typeAllows required value)
    (free : ¬ agreement.stuck) (held : agreement.value? = some current)
    (different : current ≠ value) : base.trySet newId value = .ok (none, base) := by
  rw [try_set_loop represents allowed]
  have pointed := represents.obj
  rw [held] at pointed
  have expects : expectNonnull base.tag = true := by
    rw [expect_nonnull_iff]
    have word := represents.word
    cases agreement with
    | undecided => cases held
    | tentative other holders =>
        have unfilled : holders ≠ 256 := free
        simp only at word
        omega
    | decided other =>
        simp only at word
        omega
  simp [RevertableBaseObject.trySetAttempt, expects, pointed, different, whileTrue]

theorem try_set_granted (newId : UniqueId) {value : StorageDeltaClass}
    (represents : Represents base required agreement) (allowed : typeAllows required value)
    (free : ¬ agreement.stuck) (agrees : ∀ current, agreement.value? = some current →
      current = value) :
    ∃ after, base.trySet newId value = .ok (some (agreement.grant value).1, after) ∧
      Represents after required (agreement.grant value).2 ∧
      ∀ current, agreement = .decided current → after = base := by
  rw [try_set_loop represents allowed]
  have word := represents.word
  have pointed := represents.obj
  have swapped := low_word_swap_id base.tag newId
  have counted := low_word_add_inflight (swapId base.tag newId)
  cases agreement with
  | undecided =>
      simp only [Agreement.value?] at pointed word
      have unset : expectNonnull base.tag = false := by
        rw [← Bool.not_eq_true, expect_nonnull_iff]
        omega
      refine ⟨{ base with tag := addInflight (swapId base.tag newId), obj := some value },
        ?_, ?_, fun _ impossible => by cases impossible⟩
      · simp [RevertableBaseObject.trySetAttempt, unset, pointed, whileTrue, Agreement.grant]
      · refine ⟨represents.requiredType, rfl, ?_⟩
        simp only [Agreement.grant]
        omega
  | tentative current holders =>
      have same := agrees current rfl
      have unfilled : holders ≠ 256 := free
      subst same
      simp only [Agreement.value?] at pointed word
      have expects : expectNonnull base.tag = true := by
        rw [expect_nonnull_iff]
        omega
      have unfixed : isFinalized base.tag = false := by
        rw [← Bool.not_eq_true, is_finalized_iff]
        omega
      refine ⟨{ base with tag := addInflight (swapId base.tag newId) }, ?_, ?_,
        fun _ impossible => by cases impossible⟩
      · simp [RevertableBaseObject.trySetAttempt, expects, unfixed, pointed, whileTrue,
          Agreement.grant]
      · refine ⟨represents.requiredType, pointed, ?_⟩
        simp only [Agreement.grant]
        omega
  | decided current =>
      have same := agrees current rfl
      subst same
      simp only [Agreement.value?] at pointed word
      have expects : expectNonnull base.tag = true := by
        rw [expect_nonnull_iff]
        omega
      have fixed : isFinalized base.tag = true := by
        rw [is_finalized_iff]
        exact word
      refine ⟨base, ?_, represents, fun _ _ => rfl⟩
      simp [RevertableBaseObject.trySetAttempt, expects, fixed, pointed, whileTrue,
        Agreement.grant]

theorem commit_represents (represents : Represents base required agreement)
    (valued : agreement.value? ≠ none) : Represents base.commit required agreement.fix := by
  have word := represents.word
  have fixed := low_word_or_one base.tag
  cases agreement with
  | undecided => exact absurd rfl valued
  | tentative current holders =>
      refine ⟨represents.requiredType, represents.obj, ?_⟩
      simp only [Agreement.fix, RevertableBaseObject.commit]
      omega
  | decided current =>
      refine ⟨represents.requiredType, represents.obj, ?_⟩
      simp only [Agreement.fix, RevertableBaseObject.commit]
      omega

theorem revert_stuck (newId : UniqueId) (represents : Represents base required agreement)
    (stuck : agreement.stuck) : base.revert newId = .error .spin := by
  cases agreement with
  | undecided => exact stuck.elim
  | decided current => exact stuck.elim
  | tentative current holders =>
      have full : holders = 256 := stuck
      have word := represents.word.2.2
      rw [full] at word
      have unset : expectNonnull base.tag = false := by
        rw [← Bool.not_eq_true, expect_nonnull_iff]
        omega
      have pointed := represents.obj
      simp only [Agreement.value?] at pointed
      simp [RevertableBaseObject.revert, RevertableBaseObject.revertAttempt, unset, pointed,
        whileTrue]

/-- Below 256 open rewinds a revert gives back exactly one hold. The last hold on a value
that nobody has committed sets the pointer to null. -/
theorem revert_represents (newId : UniqueId) (represents : Represents base required agreement)
    (free : ¬ agreement.stuck) (valued : agreement.value? ≠ none) :
    ∃ after, base.revert newId = .ok after ∧ Represents after required agreement.release ∧
      ∀ current, agreement = .decided current → after = base := by
  have word := represents.word
  have pointed := represents.obj
  have swapped := low_word_swap_id base.tag newId
  have counted := low_word_remove_inflight (swapId base.tag newId)
  have inflight := has_inflight_iff (removeInflight (swapId base.tag newId))
  cases agreement with
  | undecided => exact absurd rfl valued
  | tentative current holders =>
      have unfilled : holders ≠ 256 := free
      simp only [Agreement.value?] at pointed word
      have expects : expectNonnull base.tag = true := by
        rw [expect_nonnull_iff]
        omega
      have unfixed : isFinalized base.tag = false := by
        rw [← Bool.not_eq_true, is_finalized_iff]
        omega
      by_cases last : holders = 1
      · have drained : hasInflight (removeInflight (swapId base.tag newId)) = false := by
          rw [← Bool.not_eq_true, inflight]
          omega
        refine ⟨{ base with tag := removeInflight (swapId base.tag newId), obj := none }, ?_, ?_,
          fun _ impossible => by cases impossible⟩
        · simp [RevertableBaseObject.revert, RevertableBaseObject.revertAttempt, expects,
            unfixed, pointed, drained, whileTrue]
        · simp only [Agreement.release, if_pos last]
          refine ⟨represents.requiredType, rfl, ?_⟩
          simp only
          omega
      · have remaining : hasInflight (removeInflight (swapId base.tag newId)) = true := by
          rw [inflight]
          omega
        refine ⟨{ base with tag := removeInflight (swapId base.tag newId) }, ?_, ?_,
          fun _ impossible => by cases impossible⟩
        · simp [RevertableBaseObject.revert, RevertableBaseObject.revertAttempt, expects,
            unfixed, pointed, remaining, whileTrue]
        · simp only [Agreement.release, if_neg last]
          refine ⟨represents.requiredType, pointed, ?_⟩
          simp only
          omega
  | decided current =>
      simp only [Agreement.value?] at pointed word
      have expects : expectNonnull base.tag = true := by
        rw [expect_nonnull_iff]
        omega
      have fixed : isFinalized base.tag = true := by
        rw [is_finalized_iff]
        exact word
      refine ⟨base, ?_, represents, fun _ _ => rfl⟩
      simp [RevertableBaseObject.revert, RevertableBaseObject.revertAttempt, expects, fixed,
        pointed, whileTrue]

end Calls

end Scs
