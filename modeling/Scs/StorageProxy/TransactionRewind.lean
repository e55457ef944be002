import Scs.StateDb.World

/-!
# The rewinds of one transaction (`storage_proxy/transaction_rewind.h`)

A transaction pushes its deltas key by key and collects the rewinds. It commits
them all, or its destructor takes them all back.
-/

namespace Scs

set_option autoImplicit false

variable (cryptoShorthash : CryptoShorthash)

/-- `push_deltas_to_statedb`: pushes until the first rejection, on a thread that has
allocated so many entries. The answer says whether every delta was accepted, and how
many entries the thread has allocated then. -/
def pushAll : ℕ → List (CallIds × AddressAndKey × StorageDelta) → Objects →
    Except Fault (Bool × Rewinds × ℕ × Objects)
  | allocated, [], objects => .ok (true, [], allocated, objects)
  | allocated, (ids, key, delta) :: rest, objects => do
      let (answer, after) ←
        (objects key).tryAddDelta cryptoShorthash (ids.holding allocated) delta
      let allocated := (objects key).allocatedAfter cryptoShorthash (ids.holding allocated) delta
      let objects := Function.update objects key after
      match answer with
      | none => .ok (false, [], allocated, objects)
      | some rewind => do
          let (accepted, rewinds, allocated, objects) ← pushAll allocated rest objects
          .ok (accepted, (key, rewind) :: rewinds, allocated, objects)

def commitAll : Rewinds → Objects → Except Fault Objects
  | [], objects => .ok objects
  | (key, rewind) :: rest, objects => do
      let after ← rewind.commit (objects key)
      commitAll rest (Function.update objects key after)

/-- The destructors of a failed transaction's rewinds, in the order given. -/
def destroyAll : List (UniqueId × AddressAndKey × DeltaRewind) → Objects →
    Except Fault Objects
  | [], objects => .ok objects
  | (newId, key, rewind) :: rest, objects => do
      let after ← rewind.destroy cryptoShorthash newId (objects key)
      destroyAll rest (Function.update objects key after)

end Scs
