import Scs.Xdr.Storage

/-!
# The object a delta class stands for (`object/object_defaults.cc`)
-/

namespace Scs

set_option autoImplicit false

/-- `object_from_delta_class`: the block's base value, with what the committed
object carries over. `StorageObject out` starts with an escrowed fee of zero. -/
def objectFromDeltaClass (dc : StorageDeltaClass) (prevObject : Option StorageObject) :
    Except Fault StorageObject :=
  let mismatch : Bool := match prevObject with
    | some prev => prev.body.type ≠ dc.type
    | none => false
  if mismatch then .error (.runtimeError "type mismatch in object_from_delta_class")
  else match dc with
    | .rawMemory data => .ok { body := .rawMemoryStorage data, escrowedFee := 0 }
    | .nonnegativeInt64 value => .ok { body := .nonnegativeInt64 value, escrowedFee := 0 }
    | .hashSet =>
        match prevObject with
        | some { body := .hashSet prev, .. } =>
            .ok { body := .hashSet { hashes := prev.hashes, maxSize := prev.maxSize },
                  escrowedFee := 0 }
        | some _ => .error .wrongUnion
        | none =>
            .ok { body := .hashSet { hashes := [], maxSize := startHashSetSize },
                  escrowedFee := 0 }
    | .knownSupplyAsset =>
        match prevObject with
        | some { body := .asset prev, .. } =>
            .ok { body := .asset { amount := prev.amount }, escrowedFee := 0 }
        | some _ => .error .wrongUnion
        | none => .ok { body := .asset { amount := 0 }, escrowedFee := 0 }
    | .unconstrainedInt64 _ _ => .error (.runtimeError "unimpl sdc object_defaults.cc")

theorem object_from_delta_class_type {dc : StorageDeltaClass} {prevObject : Option StorageObject}
    {object : StorageObject} (made : objectFromDeltaClass dc prevObject = .ok object) :
    object.body.type = dc.type := by
  unfold objectFromDeltaClass at made
  simp only at made
  split_ifs at made
  cases dc with
  | rawMemory data =>
      cases made
      rfl
  | nonnegativeInt64 value =>
      cases made
      rfl
  | hashSet =>
      cases prevObject with
      | none =>
          cases made
          rfl
      | some prev =>
          obtain ⟨body, escrowedFee⟩ := prev
          cases body <;> cases made
          rfl
  | knownSupplyAsset =>
      cases prevObject with
      | none =>
          cases made
          rfl
      | some prev =>
          obtain ⟨body, escrowedFee⟩ := prev
          cases body <;> cases made
          rfl
  | unconstrainedInt64 setValue delta => cases made

end Scs
