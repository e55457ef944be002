import Scs.StorageProxy.LocalView

/-!
# Refused operations

`try_apply` may be called again after it returned false. A refused call leaves
the applicator as it was, or puts the default asset where there was no object.
-/

namespace Scs

set_option autoImplicit false

open HashSetEntry Lockstep ProxyApplicator Words

/-- A sequence of calls, whatever each returns; it ends early only at a throw. -/
def applyEach {Failure : Type}
    (apply : StorageDelta → ProxyApplicator → Except Failure (Bool × ProxyApplicator)) :
    List StorageDelta → ProxyApplicator → Except Failure (List Bool × ProxyApplicator)
  | [], applicator => .ok ([], applicator)
  | d :: rest, applicator => do
      let (accepted, next) ← apply d applicator
      let (answers, last) ← applyEach apply rest next
      .ok (accepted :: answers, last)

namespace ProxyApplicator

def tryEach : List StorageDelta → ProxyApplicator →
    Except Fault (List Bool × ProxyApplicator) :=
  applyEach tryApply

def outcome (ops : List StorageDelta) (applicator : ProxyApplicator) :
    Except Fault (List Bool × List StorageDelta) := do
  let (answers, last) ← applicator.tryEach ops
  .ok (answers, last.getDeltas)

end ProxyApplicator

def blankAsset : StorageObject where
  body := .asset { amount := 0 }
  escrowedFee := 0

def StorageDelta.objectType? (d : StorageDelta) : Option ObjectType :=
  d.class?.map StorageDeltaClass.type

section Refused

variable {base : Option StorageObject} {applicator next : ProxyApplicator} {d : StorageDelta}

theorem make_current_same {type : ObjectType} {object : StorageObject}
    (present : applicator.current.isSome) (made : applicator.makeCurrent type = .ok object) :
    { applicator with current := some object } = applicator := by
  obtain ⟨current, stored⟩ := Option.isSome_iff_exists.mp present
  obtain ⟨rfl, _⟩ := make_current_touched stored made
  rw [← stored]

theorem view_absent (view : View base applicator) (absent : applicator.current = none) :
    base = none ∧ applicator = .onBase none := by
  cases view with
  | untouched =>
      have same : base = none := absent
      subst same
      exact ⟨rfl, rfl⟩
  | rawMemory => cases absent
  | nonnegativeInt64 => cases absent
  | hashSet => cases absent
  | asset => cases absent

inductive Refused (base : Option StorageObject) (applicator : ProxyApplicator) :
    StorageDelta → ProxyApplicator → Prop
  | unchanged {d : StorageDelta} : Refused base applicator d applicator
  | opened (amount : Int64) (absent : base = none) (untouched : applicator = .onBase none) :
      Refused base applicator (.assetObjectAdd amount) (.onBase (some blankAsset))

theorem apply_set_add_refused {setAdd : SetAdd}
    (refused : applySetAdd setAdd applicator = .ok (false, next)) : next = applicator := by
  unfold applySetAdd at refused
  simp only at refused
  split_ifs at refused with disagrees
  · cases refused
    rfl
  · obtain ⟨answer, _, rest⟩ := bind_ok_iff.mp refused
    cases answer with
    | none =>
        cases rest
        rfl
    | some merged =>
        obtain ⟨object, _, rest⟩ := bind_ok_iff.mp rest
        obtain ⟨value, _, rest⟩ := bind_ok_iff.mp rest
        cases rest

/-- A new set is empty and takes at least one entry. -/
theorem apply_insert_refused (view : View base applicator) {hash : HashSetEntry}
    (refused : applyInsert hash applicator = .ok (false, next)) : next = applicator := by
  cases current : applicator.current with
  | none =>
      obtain ⟨-, rfl⟩ := view_absent view current
      have accepted : ∃ after, applyInsert hash (.onBase none) = .ok (true, after) := ⟨_, rfl⟩
      obtain ⟨after, returned⟩ := accepted
      rw [returned] at refused
      cases refused
  | some stored =>
      obtain ⟨object, made, rest⟩ := bind_ok_iff.mp refused
      obtain ⟨set, _, rest⟩ := bind_ok_iff.mp rest
      have same := make_current_same (by rw [current]; rfl) made
      simp only at rest
      split_ifs at rest <;> cases rest <;> exact same

theorem apply_asset_add_refused (view : View base applicator) {amount : Int64}
    (refused : applyAssetAdd amount applicator = .ok (false, next)) :
    Refused base applicator (.assetObjectAdd amount) next := by
  obtain ⟨object, made, rest⟩ := bind_ok_iff.mp refused
  obtain ⟨asset, _, rest⟩ := bind_ok_iff.mp rest
  have kept : next = { applicator with current := some object } := by
    simp only at rest
    split_ifs at rest <;> cases rest <;> rfl
  subst kept
  cases current : applicator.current with
  | none =>
      obtain ⟨absent, rfl⟩ := view_absent view current
      cases made
      exact .opened amount absent rfl
  | some stored =>
      rw [make_current_same (by rw [current]; rfl) made]
      exact .unchanged

theorem apply_typed_refused (view : View base applicator)
    (refused : applyTyped d applicator = .ok (false, next)) :
    Refused base applicator d next := by
  cases d with
  | rawMemoryWrite data =>
      obtain ⟨object, _, rest⟩ := bind_ok_iff.mp refused
      cases rest
  | nonnegativeInt64SetAdd setAdd =>
      rw [apply_set_add_refused refused]
      exact .unchanged
  | hashSetInsert hash =>
      rw [apply_insert_refused view refused]
      exact .unchanged
  | hashSetIncreaseLimit limitIncrease =>
      obtain ⟨object, _, rest⟩ := bind_ok_iff.mp refused
      cases rest
  | hashSetClear threshold =>
      obtain ⟨object, _, rest⟩ := bind_ok_iff.mp refused
      obtain ⟨set, _, rest⟩ := bind_ok_iff.mp rest
      obtain ⟨cleared, _, rest⟩ := bind_ok_iff.mp rest
      cases rest
  | assetObjectAdd amount => exact apply_asset_add_refused view refused
  | deleteLast => cases refused
  | unconstrainedInt64SetAdd setAdd => cases refused
  | unconstrainedInt64SetMax setMax => cases refused
  | unconstrainedInt64SetXor setXor => cases refused

theorem try_apply_refused (seen : Seen base applicator)
    (refused : applicator.tryApply d = .ok (false, next)) :
    Refused base applicator d next := by
  unfold tryApply at refused
  split_ifs at refused with last gone
  · cases refused
  · cases refused
    exact .unchanged
  · obtain ⟨allowed, _, applied⟩ := bind_ok_iff.mp refused
    split_ifs at applied
    · cases seen with
      | view view => exact apply_typed_refused view applied
      | deleted view => exact absurd rfl gone
    · cases applied
      exact .unchanged

/-! ## Sequences with refusals -/

/-- The view of the committed object, or of the default asset in place of none. -/
inductive Met (base : Option StorageObject) (applicator : ProxyApplicator) : Prop
  | seen (seen : Seen base applicator)
  | opened (absent : base = none) (seen : Seen (some blankAsset) applicator)

theorem seen_step (seen : Seen base applicator) {answer : Bool}
    (returned : applicator.tryApply d = .ok (answer, next)) : Met base next := by
  cases answer with
  | true => exact .seen (try_apply_seen seen returned)
  | false =>
      cases try_apply_refused seen returned with
      | unchanged => exact .seen seen
      | opened amount absent untouched => exact .opened absent (.view .untouched)

theorem met_step (met : Met base applicator) {answer : Bool}
    (returned : applicator.tryApply d = .ok (answer, next)) : Met base next := by
  cases met with
  | seen seen => exact seen_step seen returned
  | opened absent seen =>
      cases seen_step seen returned with
      | seen seen => exact .opened absent seen
      | opened impossible _ => cases impossible

theorem try_each_met {ops : List StorageDelta} {answers : List Bool}
    (met : Met base applicator) (returned : applicator.tryEach ops = .ok (answers, next)) :
    Met base next := by
  induction ops generalizing applicator answers with
  | nil =>
      cases returned
      exact met
  | cons d rest induction =>
      obtain ⟨⟨accepted, middle⟩, first, later⟩ := bind_ok_iff.mp returned
      obtain ⟨⟨others, last⟩, ends, built⟩ := bind_ok_iff.mp later
      cases built
      exact induction (met_step met first) ends

/-! ## Nothing is seen of a refusal -/

/-- The default asset takes additions just as no object does. -/
theorem blank_asset_transparent (amount : Int64) :
    (ProxyApplicator.onBase (some blankAsset)).tryApply (.assetObjectAdd amount) =
      (ProxyApplicator.onBase none).tryApply (.assetObjectAdd amount) := by
  rfl

theorem outcome_cons (ops : List StorageDelta)
    (same : next.tryApply d = applicator.tryApply d) :
    next.outcome (d :: ops) = applicator.outcome (d :: ops) := by
  simp only [outcome, tryEach, applyEach, same]

/-- The answers to the call and what comes after it show no trace of a call that
was refused. -/
structure WithoutEffect (before : ProxyApplicator) (d : StorageDelta) (after : ProxyApplicator) :
    Prop where
  deltas : after.getDeltas = before.getDeltas
  value : after.get = before.get ∨ before.get = none ∧
    ∃ type body, d.objectType? = some type ∧ defaultBody type = .ok body ∧
      after.get = some { body := body, escrowedFee := 0 }
  later : ∀ ops : List StorageDelta,
    (before.get = none → ∀ first ∈ ops.head?, first.objectType? = d.objectType?) →
      after.outcome ops = before.outcome ops

theorem without_effect_refl : WithoutEffect applicator d applicator where
  deltas := rfl
  value := .inl rfl
  later _ _ := rfl

theorem asset_delta_of_type (typed : d.objectType? = some .knownSupplyAsset) :
    ∃ amount, d = .assetObjectAdd amount := by
  cases d with
  | assetObjectAdd amount => exact ⟨amount, rfl⟩
  | _ => cases typed

theorem without_effect_opened (amount : Int64) :
    WithoutEffect (.onBase none) (.assetObjectAdd amount) (.onBase (some blankAsset)) where
  deltas := rfl
  value := .inr ⟨rfl, .knownSupplyAsset, .asset { amount := 0 }, rfl, rfl, rfl⟩
  later := by
    intro ops starts
    cases ops with
    | nil => rfl
    | cons first rest =>
        obtain ⟨other, rfl⟩ := asset_delta_of_type (starts rfl first rfl)
        exact outcome_cons rest (blank_asset_transparent other)

theorem refused_without_effect (refused : Refused base applicator d next) :
    WithoutEffect applicator d next := by
  cases refused with
  | unchanged => exact without_effect_refl
  | opened amount absent untouched =>
      subst untouched
      exact without_effect_opened amount

end Refused

/-- After any calls on the view of an object, a call that is refused has no
effect. -/
theorem refused_call_without_effect (base : Option StorageObject) (ops : List StorageDelta)
    (answers : List Bool) (applicator next : ProxyApplicator) (d : StorageDelta)
    (reached : (ProxyApplicator.onBase base).tryEach ops = .ok (answers, applicator))
    (refused : applicator.tryApply d = .ok (false, next)) : WithoutEffect applicator d next := by
  cases try_each_met (.seen (.view .untouched)) reached with
  | seen seen => exact refused_without_effect (try_apply_refused seen refused)
  | opened absent seen => exact refused_without_effect (try_apply_refused seen refused)

/-- A withdrawal from an asset that does not exist. -/
theorem refused_call_without_effect_opened :
    WithoutEffect (.onBase none) (.assetObjectAdd (-1)) (.onBase (some blankAsset)) := by
  exact refused_call_without_effect none [] [] (.onBase none) (.onBase (some blankAsset))
    (.assetObjectAdd (-1)) rfl rfl

end Scs
