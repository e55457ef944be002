import Scs.Library.Lockstep
import Scs.Object.Session
import Mathlib.Logic.Function.Basic

/-!
# The objects of the state and the rewinds open on them

A world is one object for every key and the rewinds that all transactions hold.
Its operations are the calls of `RevertableObject` on one key; a rewind is
named by its position. `commit_round` waits until no rewind is open on its key.
-/

namespace Scs

set_option autoImplicit false

open Lockstep Ledger

abbrev Objects := AddressAndKey → RevertableObject

/-- The rewinds of a transaction, as `TransactionRewind` lists them. -/
abbrev Rewinds := List (AddressAndKey × DeltaRewind)

structure World where
  objects : Objects
  held : Rewinds

inductive Operation where
  | push (key : AddressAndKey) (delta : StorageDelta)
  | commit (position : Nat)
  | revert (position : Nat)
  | commitRound (key : AddressAndKey)

inductive Observation where
  | accepted
  | rejected
  | done
  | committed (object : Option StorageObject)
  | unavailable
  | faulted (fault : Fault)
  deriving DecidableEq, Repr

def Rewinds.on (key : AddressAndKey) (rewinds : Rewinds) : List DeltaRewind :=
  rewinds.filterMap fun entry => if entry.1 = key then some entry.2 else none

namespace Rewinds

variable (key : AddressAndKey)

@[simp] theorem on_nil : Rewinds.on key [] = [] := rfl

@[simp] theorem on_self (rewind : DeltaRewind) (rest : Rewinds) :
    Rewinds.on key ((key, rewind) :: rest) = rewind :: Rewinds.on key rest := by
  simp [Rewinds.on]

theorem on_other {other : AddressAndKey} (different : key ≠ other) (rewind : DeltaRewind)
    (rest : Rewinds) : Rewinds.on key ((other, rewind) :: rest) = Rewinds.on key rest := by
  simp [Rewinds.on, different.symm]

@[simp] theorem on_append (first second : Rewinds) :
    Rewinds.on key (first ++ second) = Rewinds.on key first ++ Rewinds.on key second :=
  List.filterMap_append

theorem on_perm {first second : Rewinds} (same : first.Perm second) :
    (Rewinds.on key first : Multiset DeltaRewind) = Rewinds.on key second :=
  Multiset.coe_eq_coe.mpr (same.filterMap _)

theorem erase_perm {rewinds : Rewinds} {position : Nat} {entry : AddressAndKey × DeltaRewind}
    (found : rewinds[position]? = some entry) :
    (entry :: rewinds.eraseIdx position).Perm rewinds := by
  obtain ⟨inside, same⟩ := List.getElem?_eq_some_iff.mp found
  rw [← same]
  exact List.getElem_cons_eraseIdx_perm inside

end Rewinds

namespace World

variable (cryptoShorthash : CryptoShorthash)

/-- One operation, with what it may draw from the context of its thread: what the caller
sees, and the world afterwards if the call returns. -/
def perform (world : World) : CallIds × Operation → Observation × Option World
  | (ids, .push key delta) =>
      match (world.objects key).tryAddDelta cryptoShorthash ids delta with
      | .ok (some rewind, after) =>
          (.accepted,
            some
              { objects := Function.update world.objects key after
                held := (key, rewind) :: world.held })
      | .ok (none, after) =>
          (.rejected, some { world with objects := Function.update world.objects key after })
      | .error fault => (.faulted fault, none)
  | (_, .commit position) =>
      match world.held[position]? with
      | none => (.unavailable, some world)
      | some (key, rewind) =>
          match rewind.commit (world.objects key) with
          | .ok after =>
              (.done,
                some
                  { objects := Function.update world.objects key after
                    held := world.held.eraseIdx position })
          | .error fault => (.faulted fault, none)
  | (ids, .revert position) =>
      match world.held[position]? with
      | none => (.unavailable, some world)
      | some (key, rewind) =>
          match rewind.destroy cryptoShorthash ids.undo (world.objects key) with
          | .ok after =>
              (.done,
                some
                  { objects := Function.update world.objects key after
                    held := world.held.eraseIdx position })
          | .error fault => (.faulted fault, none)
  | (_, .commitRound key) =>
      if Rewinds.on key world.held ≠ [] then (.unavailable, some world)
      else
        match (world.objects key).commitRound with
        | .ok after =>
            (.committed after.getCommittedObject,
              some { world with objects := Function.update world.objects key after })
        | .error fault => (.faulted fault, none)

end World

/-- Every world that operations lead to from newly constructed objects. -/
inductive ReachableWorld (cryptoShorthash : CryptoShorthash) : World → Prop
  | constructed (bases : AddressAndKey → Option StorageObject) :
      ReachableWorld cryptoShorthash { objects := fun key => .onBase (bases key), held := [] }
  | next {world after : World} {operation : CallIds × Operation}
      (earlier : ReachableWorld cryptoShorthash world)
      (performed : (world.perform cryptoShorthash operation).2 = some after) :
      ReachableWorld cryptoShorthash after

/-! ## The ledgers of a world -/

/-- Every object accounts for the rewinds that are open on its key. -/
def WorldKept (cryptoShorthash : CryptoShorthash) (openings : AddressAndKey → Opening)
    (committed : AddressAndKey → Multiset StorageDelta) (world : World) : Prop :=
  ∀ key, ∃ agreement, Accounts cryptoShorthash (openings key) ↑(Rewinds.on key world.held)
    (committed key) agreement (world.objects key)

section Kept

variable {cryptoShorthash : CryptoShorthash} {openings : AddressAndKey → Opening}
  {committed : AddressAndKey → Multiset StorageDelta} {world : World}

/-- A call on one key leaves the ledgers of the others alone. -/
theorem kept_update (kept : WorldKept cryptoShorthash openings committed world)
    {key : AddressAndKey} (opening : Opening) (deltas : Multiset StorageDelta) (held : Rewinds)
    {after : RevertableObject}
    (here : ∃ agreement, Accounts cryptoShorthash opening ↑(Rewinds.on key held) deltas agreement
      after)
    (elsewhere : ∀ other, other ≠ key →
      (Rewinds.on other held : Multiset DeltaRewind) = Rewinds.on other world.held) :
    WorldKept cryptoShorthash (Function.update openings key opening)
      (Function.update committed key deltas)
      { objects := Function.update world.objects key after, held := held } := by
  intro other
  by_cases same : other = key
  · subst same
    simp only [Function.update_self]
    exact here
  · simp only [Function.update_of_ne same, elsewhere other same]
    exact kept other

theorem on_erase_other {position : Nat} {key other : AddressAndKey} {rewind : DeltaRewind}
    {held : Rewinds} (found : held[position]? = some (key, rewind)) (different : other ≠ key) :
    (Rewinds.on other (held.eraseIdx position) : Multiset DeltaRewind) =
      Rewinds.on other held := by
  rw [← Rewinds.on_perm other (Rewinds.erase_perm found), Rewinds.on_other other different]

theorem on_erase_self {position : Nat} {key : AddressAndKey} {rewind : DeltaRewind}
    {held : Rewinds} (found : held[position]? = some (key, rewind)) :
    (Rewinds.on key held : Multiset DeltaRewind) =
      rewind ::ₘ ↑(Rewinds.on key (held.eraseIdx position)) := by
  rw [← Rewinds.on_perm key (Rewinds.erase_perm found), Rewinds.on_self, Multiset.cons_coe]

theorem perform_kept {after : World} {operation : CallIds × Operation}
    (kept : WorldKept cryptoShorthash openings committed world)
    (performed : (world.perform cryptoShorthash operation).2 = some after) :
    ∃ openings committed, WorldKept cryptoShorthash openings committed after := by
  obtain ⟨ids, operation⟩ := operation
  cases operation with
  | push key delta =>
      obtain ⟨agreement, accounts⟩ := kept key
      have outcome := push_outcome accounts delta ids
      simp only [World.perform] at performed
      generalize (world.objects key).tryAddDelta cryptoShorthash ids delta = answer
        at outcome performed
      cases outcome with
      | @accepted rewind next pushed =>
          cases performed
          refine ⟨_, _, kept_update kept (openings key) (committed key)
            ((key, rewind) :: world.held) ?_ ?_⟩
          · rw [Rewinds.on_self, ← Multiset.cons_coe]
            exact pushed.accounts
          · intro other different
            rw [Rewinds.on_other other different]
      | rejected rejected reason =>
          cases performed
          exact ⟨_, _, kept_update kept (openings key) (committed key) world.held
            ⟨agreement, rejected.accounts⟩ fun other _ => rfl⟩
      | faulted unimplemented => cases performed
      | spins classed stuck => cases performed
      | lost unaffordable full => cases performed
      | exhausted unserved => cases performed
  | commit position =>
      simp only [World.perform] at performed
      cases found : world.held[position]? with
      | none =>
          rw [found] at performed
          cases performed
          exact ⟨openings, committed, kept⟩
      | some entry =>
          obtain ⟨key, rewind⟩ := entry
          obtain ⟨agreement, accounts⟩ := kept key
          rw [on_erase_self found] at accounts
          obtain ⟨next, returned, counted, _⟩ := rewind_commit_spec accounts
          simp only [found, returned] at performed
          cases performed
          exact ⟨_, _, kept_update kept (openings key) (rewind.delta ::ₘ committed key) _ counted
            fun other different => on_erase_other found different⟩
  | revert position =>
      simp only [World.perform] at performed
      cases found : world.held[position]? with
      | none =>
          rw [found] at performed
          cases performed
          exact ⟨openings, committed, kept⟩
      | some entry =>
          obtain ⟨key, rewind⟩ := entry
          obtain ⟨agreement, accounts⟩ := kept key
          rw [on_erase_self found] at accounts
          rcases rewind_destroy_spec accounts ids.undo with ⟨_, _, spins⟩ | ⟨next, returned, spec⟩
          · simp only [found, spins] at performed
            cases performed
          · simp only [found, returned] at performed
            cases performed
            exact ⟨_, _, kept_update kept (openings key) (committed key) _ spec.accounts
              fun other different => on_erase_other found different⟩
  | commitRound key =>
      obtain ⟨agreement, accounts⟩ := kept key
      simp only [World.perform] at performed
      split_ifs at performed with opened
      · cases performed
        exact ⟨openings, committed, kept⟩
      · have closed : Rewinds.on key world.held = [] := not_not.mp opened
        rw [closed] at accounts
        cases returned : (world.objects key).commitRound with
        | error fault =>
            rw [returned] at performed
            cases performed
        | ok next =>
            rw [returned] at performed
            cases performed
            obtain ⟨opening, _, started⟩ := commit_round_start accounts returned
            refine ⟨_, _, kept_update kept opening 0 world.held ?_ fun other _ => rfl⟩
            rw [closed]
            exact ⟨.undecided, started.accounts⟩

theorem reachable_kept (reachable : ReachableWorld cryptoShorthash world) :
    ∃ openings committed, WorldKept cryptoShorthash openings committed world := by
  induction reachable with
  | constructed bases =>
      refine ⟨fun key => .onBase (bases key), fun _ => 0, ?_⟩
      intro key
      exact ⟨.undecided, (round_start_over cryptoShorthash (bases key)).accounts⟩
  | next earlier performed induction =>
      obtain ⟨openings, committed, kept⟩ := induction
      exact perform_kept kept performed

end Kept

/-! ## Observation -/

def onThread (call : CallIds × Operation) : ℕ × Operation := (call.1.allocated, call.2)

/-- No later sequence of operations, on threads with as many entries allocated, tells the
two worlds apart, whichever swap ids are drawn in either. -/
def ObservationallyEqual (cryptoShorthash : CryptoShorthash) (left right : World) : Prop :=
  ∀ operations others : List (CallIds × Operation),
    operations.map onThread = others.map onThread →
    observe (World.perform cryptoShorthash) operations left =
      observe (World.perform cryptoShorthash) others right

/-! ## Objects that differ in their swap ids only -/

structure AlikeBase (left right : RevertableBaseObject) : Prop where
  word : lowWord left.tag = lowWord right.tag
  obj : left.obj = right.obj
  requiredType : left.requiredType = right.requiredType

structure Alike (left right : RevertableObject) : Prop where
  base : AlikeBase left.baseObj right.baseObj
  rest : right = { left with baseObj := right.baseObj }

section Words

variable {left right : RevertableBaseObject}

theorem alike_expects (alike : AlikeBase left right) :
    expectNonnull left.tag = expectNonnull right.tag := by
  rw [Bool.eq_iff_iff, expect_nonnull_iff, expect_nonnull_iff, alike.word]

theorem alike_finalized (alike : AlikeBase left right) :
    isFinalized left.tag = isFinalized right.tag := by
  rw [Bool.eq_iff_iff, is_finalized_iff, is_finalized_iff, alike.word]

theorem alike_grant (alike : AlikeBase left right) (newId otherId : UniqueId)
    (obj : Option StorageDeltaClass) :
    AlikeBase { left with tag := addInflight (swapId left.tag newId), obj := obj }
      { right with tag := addInflight (swapId right.tag otherId), obj := obj } where
  word := by
    rw [low_word_add_inflight, low_word_add_inflight, low_word_swap_id, low_word_swap_id,
      alike.word]
  obj := rfl
  requiredType := alike.requiredType

theorem alike_release (alike : AlikeBase left right) (newId otherId : UniqueId)
    (obj : Option StorageDeltaClass) :
    AlikeBase { left with tag := removeInflight (swapId left.tag newId), obj := obj }
      { right with tag := removeInflight (swapId right.tag otherId), obj := obj } where
  word := by
    rw [low_word_remove_inflight, low_word_remove_inflight, low_word_swap_id, low_word_swap_id,
      alike.word]
  obj := rfl
  requiredType := alike.requiredType

theorem alike_commit (alike : AlikeBase left right) : AlikeBase left.commit right.commit where
  word := by
    rw [RevertableBaseObject.commit, RevertableBaseObject.commit, low_word_or_one,
      low_word_or_one, alike.word]
  obj := alike.obj
  requiredType := alike.requiredType

/-- The same answer, and objects that still differ in their swap ids only. -/
def AlikeAnswer {Answer : Type} (left right : Answer × RevertableBaseObject) : Prop :=
  left.1 = right.1 ∧ AlikeBase left.2 right.2

theorem alike_try_set (alike : AlikeBase left right) (newId otherId : UniqueId)
    (value : StorageDeltaClass) :
    Returns AlikeAnswer (left.trySet newId value) (right.trySet otherId value) := by
  have attempt : Returns AlikeAnswer (whileTrue (left.trySetAttempt newId value))
      (whileTrue (right.trySetAttempt otherId value)) := by
    unfold RevertableBaseObject.trySetAttempt
    simp only
    rw [alike_expects alike, alike.obj, alike_finalized alike]
    cases right.obj with
    | none =>
        simp only
        split_ifs
        · exact .fault Fault.spin
        · exact .fault Fault.spin
        · exact .value ⟨rfl, alike_grant alike newId otherId (some value)⟩
    | some current =>
        simp only
        split_ifs
        · exact .fault Fault.spin
        · exact .fault Fault.spin
        · exact .value ⟨rfl, alike⟩
        · exact .value ⟨rfl, alike⟩
        · exact .value ⟨rfl, alike_grant alike newId otherId (some current)⟩
  unfold RevertableBaseObject.trySet
  rw [alike.requiredType]
  cases right.requiredType with
  | none => exact attempt
  | some required =>
      simp only
      split_ifs
      · exact .value ⟨rfl, alike⟩
      · exact attempt

theorem alike_revert (alike : AlikeBase left right) (newId otherId : UniqueId) :
    Returns AlikeBase (left.revert newId) (right.revert otherId) := by
  have released := alike_release alike newId otherId
  have inflight : hasInflight (removeInflight (swapId left.tag newId)) =
      hasInflight (removeInflight (swapId right.tag otherId)) := by
    have word := (released none).word
    simp only at word
    rw [Bool.eq_iff_iff, has_inflight_iff, has_inflight_iff, word]
  unfold RevertableBaseObject.revert RevertableBaseObject.revertAttempt
  simp only
  rw [alike_expects alike, alike.obj, alike_finalized alike, inflight]
  split_ifs
  · exact .fault Fault.spin
  · exact .fault Fault.spin
  · exact .value alike
  · exact .value (released none)
  · exact .value (released right.obj)

theorem alike_destroy (alike : AlikeBase left right) (rewind : Rewind)
    (newId otherId : UniqueId) :
    Returns AlikeBase (rewind.destroy newId left) (rewind.destroy otherId right) := by
  unfold Rewind.destroy
  split_ifs
  · exact alike_revert alike newId otherId
  · exact .value alike

theorem alike_rewind_commit (alike : AlikeBase left right) (rewind : Rewind) :
    AlikeBase (rewind.commit left) (rewind.commit right) := by
  unfold Rewind.commit
  split_ifs
  · exact alike_commit alike
  · exact alike

theorem alike_reset (alike : AlikeBase left right) :
    left.commitRoundAndReset = right.commitRoundAndReset := by
  unfold RevertableBaseObject.commitRoundAndReset
  rw [alike.obj, alike.requiredType]

end Words

section Objects

variable (cryptoShorthash : CryptoShorthash) {left right : RevertableObject}

def AlikeResult {Answer : Type} (first second : Answer × RevertableObject) : Prop :=
  first.1 = second.1 ∧ Alike first.2 second.2

theorem admission_base_obj (ids : CallIds) (delta : StorageDelta) (object : RevertableObject)
    (baseObj : RevertableBaseObject) :
    admission cryptoShorthash ids delta { object with baseObj := baseObj } =
      (admission cryptoShorthash ids delta object).map
        (Option.map fun after => { after with baseObj := baseObj }) := by
  cases delta with
  | nonnegativeInt64SetAdd setAdd =>
      simp only [admission, RevertableObject.admitSetAdd]
      split_ifs <;> simp only [Except.map, Option.map]
  | hashSetInsert hash =>
      have reads : ({ object with baseObj := baseObj } : RevertableObject).committedHashes =
          object.committedHashes := rfl
      simp only [admission, RevertableObject.admitInsert, reads]
      cases object.committedHashes with
      | error fault => rfl
      | ok limits =>
          simp only [bind, Except.bind]
          split_ifs
          · rfl
          · rfl
          · cases object.newHashes.tryInsert cryptoShorthash ids.allocated hash with
            | error fault => rfl
            | ok outcome =>
                simp only
                split_ifs <;> rfl
  | assetObjectAdd assetDelta =>
      simp only [admission, RevertableObject.admitAssetAdd]
      split_ifs
      · cases tryAddUint64 assetDelta object.availableAsset <;> rfl
      · cases tryAddUint64 assetDelta object.availableAssetUpperbound <;> rfl
  | _ => rfl

theorem admission_allocated {ids others : CallIds} (same : others.allocated = ids.allocated)
    (delta : StorageDelta) :
    admission cryptoShorthash others delta = admission cryptoShorthash ids delta := by
  cases delta with
  | hashSetInsert hash => simp only [admission, same]
  | _ => rfl

theorem commit_delta_base_obj (delta : StorageDelta) (object : RevertableObject)
    (baseObj : RevertableBaseObject) :
    ({ object with baseObj := baseObj } : RevertableObject).commitDelta delta =
      (object.commitDelta delta).map fun after => { after with baseObj := baseObj } := by
  cases delta with
  | assetObjectAdd assetDelta =>
      simp only [RevertableObject.commitDelta]
      split_ifs <;> rfl
  | _ => rfl

theorem revert_delta_base_obj (delta : StorageDelta) (object : RevertableObject)
    (baseObj : RevertableBaseObject) :
    ({ object with baseObj := baseObj } : RevertableObject).revertDelta cryptoShorthash delta =
      (object.revertDelta cryptoShorthash delta).map fun after =>
        { after with baseObj := baseObj } := by
  cases delta with
  | nonnegativeInt64SetAdd setAdd =>
      simp only [RevertableObject.revertDelta]
      split_ifs <;> rfl
  | hashSetInsert hash =>
      simp only [RevertableObject.revertDelta, bind, Except.bind]
      cases object.newHashes.erase cryptoShorthash hash <;> rfl
  | assetObjectAdd assetDelta =>
      simp only [RevertableObject.revertDelta]
      split_ifs <;> rfl
  | _ => rfl

theorem alike_object (alike : Alike left right) (first second : RevertableBaseObject)
    (same : AlikeBase first second) :
    Alike { left with baseObj := first } { right with baseObj := second } := by
  refine ⟨same, ?_⟩
  rw [alike.rest]

theorem alike_try_add_delta (alike : Alike left right) {ids others : CallIds}
    (allocated : others.allocated = ids.allocated) (delta : StorageDelta) :
    Returns AlikeResult (left.tryAddDelta cryptoShorthash ids delta)
      (right.tryAddDelta cryptoShorthash others delta) := by
  cases classed : delta.class? with
  | none =>
      cases delta with
      | deleteLast => exact .value ⟨rfl, alike⟩
      | unconstrainedInt64SetAdd setAdd => exact .fault _
      | unconstrainedInt64SetMax setMax => exact .fault _
      | unconstrainedInt64SetXor setXor => exact .fault _
      | _ => cases classed
  | some value =>
      rw [try_add_delta_classed classed, try_add_delta_classed classed,
        admission_allocated cryptoShorthash allocated]
      unfold RevertableObject.reserve
      apply returns_bind (alike_try_set alike.base ids.set others.set value)
      rintro ⟨answer, first⟩ ⟨other, second⟩ ⟨same, words⟩
      simp only at same
      subst same
      cases answer with
      | none => exact .value ⟨rfl, alike_object alike first second words⟩
      | some rewind =>
          have reserved : admission cryptoShorthash ids delta { right with baseObj := second } =
              (admission cryptoShorthash ids delta { left with baseObj := first }).map
                (Option.map fun after => { after with baseObj := second }) := by
            rw [alike.rest]
            exact admission_base_obj cryptoShorthash ids delta { left with baseObj := first } second
          simp only
          rw [reserved]
          cases admitted : admission cryptoShorthash ids delta { left with baseObj := first } with
          | error fault => exact .fault fault
          | ok outcome =>
              cases outcome with
              | some after =>
                  have kept : after.baseObj = first := by
                    have untouched := admission_base_obj cryptoShorthash ids delta
                      { left with baseObj := first } first
                    rw [admitted] at untouched
                    simp only [Except.map, Option.map, Except.ok.injEq, Option.some.injEq]
                      at untouched
                    rw [untouched]
                  refine .value ⟨rfl, ?_, rfl⟩
                  rw [kept]
                  exact words
              | none =>
                  apply returns_bind (alike_destroy words rewind ids.undo others.undo)
                  intro leftBase rightBase again
                  exact .value ⟨rfl, alike_object alike leftBase rightBase again⟩

theorem alike_delta_commit (alike : Alike left right) (rewind : DeltaRewind) :
    Returns Alike (rewind.commit left) (rewind.commit right) := by
  have same : right.commitDelta rewind.delta =
      (left.commitDelta rewind.delta).map fun after =>
        { after with baseObj := right.baseObj } := by
    rw [alike.rest]
    exact commit_delta_base_obj rewind.delta left right.baseObj
  have untouched := commit_delta_base_obj rewind.delta left left.baseObj
  unfold DeltaRewind.commit
  rw [same]
  cases committed : left.commitDelta rewind.delta with
  | error fault => exact .fault fault
  | ok after =>
      rw [committed] at untouched
      simp only [Except.map, Except.ok.injEq] at untouched
      have kept : after.baseObj = left.baseObj := by rw [untouched]
      refine .value ⟨?_, rfl⟩
      simp only
      rw [kept]
      exact alike_rewind_commit alike.base rewind.rewindBase

theorem alike_delta_destroy (alike : Alike left right) (rewind : DeltaRewind)
    (newId otherId : UniqueId) :
    Returns Alike (rewind.destroy cryptoShorthash newId left)
      (rewind.destroy cryptoShorthash otherId right) := by
  have reverted : Returns Alike (rewind.undo cryptoShorthash left)
      (rewind.undo cryptoShorthash right) := by
    unfold DeltaRewind.undo
    split_ifs
    · have same : right.revertDelta cryptoShorthash rewind.delta =
          (left.revertDelta cryptoShorthash rewind.delta).map fun after =>
            { after with baseObj := right.baseObj } := by
        rw [alike.rest]
        exact revert_delta_base_obj cryptoShorthash rewind.delta left right.baseObj
      have untouched := revert_delta_base_obj cryptoShorthash rewind.delta left
        left.baseObj
      rw [same]
      cases done : left.revertDelta cryptoShorthash rewind.delta with
      | error fault => exact .fault fault
      | ok after =>
          rw [done] at untouched
          simp only [Except.map, Except.ok.injEq] at untouched
          have kept : after.baseObj = left.baseObj := by rw [untouched]
          refine .value ⟨?_, rfl⟩
          rw [kept]
          exact alike.base
    · exact .value alike
  unfold DeltaRewind.destroy
  apply returns_bind reverted
  intro first second same
  apply returns_bind (alike_destroy same.base rewind.rewindBase newId otherId)
  intro leftBase rightBase words
  exact .value (alike_object same leftBase rightBase words)

theorem alike_commit_round (alike : Alike left right) : left.commitRound = right.commitRound := by
  have words := alike_reset alike.base
  rw [alike.rest]
  unfold RevertableObject.commitRound
  simp only
  rw [← words]

end Objects

/-! ## Worlds that differ in their swap ids only -/

structure AlikeWorld (left right : World) : Prop where
  objects : ∀ key, Alike (left.objects key) (right.objects key)
  held : left.held = right.held

theorem alike_update {left right : Objects} (objects : ∀ key, Alike (left key) (right key))
    (key : AddressAndKey) {first second : RevertableObject} (same : Alike first second) :
    ∀ other, Alike (Function.update left key first other)
      (Function.update right key second other) := by
  intro other
  by_cases here : other = key
  · subst here
    rw [Function.update_self, Function.update_self]
    exact same
  · rw [Function.update_of_ne here, Function.update_of_ne here]
    exact objects other

theorem alike_perform (cryptoShorthash : CryptoShorthash) {left right : World}
    (alike : AlikeWorld left right) {ids others : CallIds}
    (allocated : others.allocated = ids.allocated) (operation : Operation) :
    (left.perform cryptoShorthash (ids, operation)).1 =
        (right.perform cryptoShorthash (others, operation)).1 ∧
      Option.Rel AlikeWorld (left.perform cryptoShorthash (ids, operation)).2
        (right.perform cryptoShorthash (others, operation)).2 := by
  cases operation with
  | push key delta =>
      have same := alike_try_add_delta cryptoShorthash (alike.objects key) allocated delta
      simp only [World.perform]
      generalize (left.objects key).tryAddDelta cryptoShorthash ids delta = first at same
      generalize (right.objects key).tryAddDelta cryptoShorthash others delta = second at same
      cases same with
      | fault fault => exact ⟨rfl, .none⟩
      | @value first second same =>
          obtain ⟨answer, after⟩ := first
          obtain ⟨other, otherAfter⟩ := second
          obtain ⟨answers, afters⟩ := same
          simp only at answers
          subst answers
          cases answer with
          | none =>
              exact ⟨rfl, .some ⟨alike_update alike.objects key afters, alike.held⟩⟩
          | some rewind =>
              exact ⟨rfl, .some ⟨alike_update alike.objects key afters,
                congrArg (List.cons (key, rewind)) alike.held⟩⟩
  | commit position =>
      simp only [World.perform]
      rw [alike.held]
      cases right.held[position]? with
      | none => exact ⟨rfl, .some alike⟩
      | some entry =>
          obtain ⟨key, rewind⟩ := entry
          have same := alike_delta_commit (alike.objects key) rewind
          simp only
          generalize rewind.commit (left.objects key) = first at same
          generalize rewind.commit (right.objects key) = second at same
          cases same with
          | fault fault => exact ⟨rfl, .none⟩
          | value same => exact ⟨rfl, .some ⟨alike_update alike.objects key same, rfl⟩⟩
  | revert position =>
      simp only [World.perform]
      rw [alike.held]
      cases right.held[position]? with
      | none => exact ⟨rfl, .some alike⟩
      | some entry =>
          obtain ⟨key, rewind⟩ := entry
          have same := alike_delta_destroy cryptoShorthash (alike.objects key)
            rewind ids.undo others.undo
          simp only
          generalize rewind.destroy cryptoShorthash ids.undo (left.objects key) = first at same
          generalize rewind.destroy cryptoShorthash others.undo (right.objects key) = second
            at same
          cases same with
          | fault fault => exact ⟨rfl, .none⟩
          | value same => exact ⟨rfl, .some ⟨alike_update alike.objects key same, rfl⟩⟩
  | commitRound key =>
      have same := alike_commit_round (alike.objects key)
      simp only [World.perform]
      rw [alike.held, same]
      split_ifs
      · exact ⟨rfl, .some alike⟩
      · cases (right.objects key).commitRound with
        | error fault => exact ⟨rfl, .none⟩
        | ok after =>
            exact ⟨rfl, .some ⟨alike_update alike.objects key ⟨⟨rfl, rfl, rfl⟩, rfl⟩, rfl⟩⟩

theorem alike_takes_index (cryptoShorthash : CryptoShorthash) {left right : RevertableObject}
    (alike : Alike left right) (ids : CallIds) (delta : StorageDelta) :
    left.takesIndex cryptoShorthash ids delta = right.takesIndex cryptoShorthash ids delta := by
  have same := alike_try_add_delta cryptoShorthash alike
    (rfl : (ids.holding allocSize).allocated = (ids.holding allocSize).allocated) delta
  unfold RevertableObject.takesIndex
  generalize left.tryAddDelta cryptoShorthash (ids.holding allocSize) delta = first at same
  generalize right.tryAddDelta cryptoShorthash (ids.holding allocSize) delta = second at same
  cases same <;> rfl

theorem alike_observationally_equal (cryptoShorthash : CryptoShorthash) {left right : World}
    (alike : AlikeWorld left right) : ObservationallyEqual cryptoShorthash left right := by
  intro operations others same
  apply observe_related AlikeWorld (fun operation other => onThread operation = onThread other)
    _ _ alike
  · rintro first second ⟨ids, operation⟩ ⟨otherIds, other⟩ states pair
    obtain ⟨allocated, called⟩ := Prod.mk.inj pair
    simp only at allocated called
    subst called
    exact alike_perform cryptoShorthash states allocated.symm operation
  · exact List.forall₂_map_left_iff.mp (List.forall₂_map_right_iff.mp (same ▸ List.forall₂_refl _))

end Scs
