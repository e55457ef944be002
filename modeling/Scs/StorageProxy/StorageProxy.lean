import Scs.Library.SortedMap
import Scs.StorageProxy.ProxyApplicator

/-!
# The storage of one transaction (`storage_proxy/storage_proxy.cc`)

The proxy caches one `ProxyApplicator` for every key that the transaction
touches. It reads the database only for the committed value of a key.
-/

namespace Scs

set_option autoImplicit false

/-- What a call of a transaction throws: a `HostError`, which fails the
transaction, or anything else. -/
inductive Thrown where
  | hostError (what : String)
  | other (fault : Fault)
  deriving DecidableEq, Repr

abbrev CommittedValues := AddressAndKey → Option StorageObject

structure StorageProxy where
  cache : SortedMap AddressAndKey ProxyApplicator
  committedLocalValues : Bool

namespace StorageProxy

def empty : StorageProxy where
  cache := .empty
  committedLocalValues := false

variable (committed : CommittedValues)

/-- `get_local`: the applicator of a key, cached from now on. -/
def getLocal (key : AddressAndKey) (proxy : StorageProxy) : ProxyApplicator × StorageProxy :=
  match proxy.cache.find key with
  | some applicator => (applicator, proxy)
  | none =>
      let applicator := ProxyApplicator.onBase (committed key)
      (applicator, { proxy with cache := proxy.cache.assign key applicator })

def get (key : AddressAndKey) (proxy : StorageProxy) : Option StorageObject × StorageProxy :=
  let (applicator, touched) := proxy.getLocal committed key
  (applicator.get, touched)

def tryApply (key : AddressAndKey) (delta : StorageDelta) (what : String) (proxy : StorageProxy) :
    Except Thrown StorageProxy :=
  let (applicator, touched) := proxy.getLocal committed key
  match applicator.tryApply delta with
  | .ok (true, after) => .ok { touched with cache := touched.cache.assign key after }
  | .ok (false, _) => .error (.hostError what)
  | .error fault => .error (.other fault)

def rawMemoryWrite (key : AddressAndKey) (bytes : RawMemoryStorage) (proxy : StorageProxy) :
    Except Thrown StorageProxy :=
  proxy.tryApply committed key (makeRawMemoryWrite bytes) "failed to apply raw_memory_write"

def nonnegativeInt64SetAdd (key : AddressAndKey) (setValue deltaValue : Int64)
    (proxy : StorageProxy) : Except Thrown StorageProxy :=
  proxy.tryApply committed key (makeNonnegativeInt64SetAdd setValue deltaValue)
    "failed to apply nonnegative_int64_set_add"

def nonnegativeInt64Add (key : AddressAndKey) (deltaValue : Int64) (proxy : StorageProxy) :
    Except Thrown StorageProxy :=
  let (applicator, touched) := proxy.getLocal committed key
  match applicator.getBaseNnint64SetValue with
  | none => .error (.hostError "type mismatch in nonnegative_int64_add")
  | some baseValue =>
      touched.tryApply committed key (makeNonnegativeInt64SetAdd baseValue deltaValue)
        "failed to apply nonnegative_int64_add"

def deleteObjectLast (key : AddressAndKey) (proxy : StorageProxy) : Except Thrown StorageProxy :=
  proxy.tryApply committed key makeDeleteLast "failed to apply delete_last"

def hashsetInsert (key : AddressAndKey) (h : Hash) (threshold : UInt64) (proxy : StorageProxy) :
    Except Thrown StorageProxy :=
  proxy.tryApply committed key (makeHashSetInsert { hash := h, index := threshold })
    "failed to apply hashset insert"

def hashsetIncreaseLimit (key : AddressAndKey) (limit : UInt32) (proxy : StorageProxy) :
    Except Thrown StorageProxy :=
  let (_, touched) := proxy.getLocal committed key
  if limit.toNat > 65535 then .error (.hostError "limit increase too large")
  else
    touched.tryApply committed key (makeHashSetIncreaseLimit limit.toUInt16)
      "failed to apply hashset limit increase"

def hashsetClear (key : AddressAndKey) (threshold : UInt64) (proxy : StorageProxy) :
    Except Thrown StorageProxy :=
  proxy.tryApply committed key (makeHashSetClear threshold) "failed to apply hashset clear"

def assetAdd (key : AddressAndKey) (d : Int64) (proxy : StorageProxy) :
    Except Thrown StorageProxy :=
  proxy.tryApply committed key (makeAssetAdd d) "failed to apply asset add"

def deltas (proxy : StorageProxy) : List (AddressAndKey × StorageDelta) :=
  proxy.cache.entries.flatMap fun entry => entry.2.getDeltas.map fun delta => (entry.1, delta)

def loggedKeys (proxy : StorageProxy) : List AddressAndKey := proxy.cache.keys

variable {committed} {key : AddressAndKey} {proxy : StorageProxy}

theorem mem_deltas {delta : StorageDelta} :
    (key, delta) ∈ proxy.deltas ↔
      ∃ applicator, proxy.cache.find key = some applicator ∧ delta ∈ applicator.getDeltas := by
  unfold deltas
  rw [List.mem_flatMap]
  constructor
  · rintro ⟨⟨other, applicator⟩, inside, member⟩
    obtain ⟨pushed, pushes, same⟩ := List.mem_map.mp member
    cases same
    exact ⟨applicator, SortedMap.mem_entries_iff.mp inside, pushes⟩
  · rintro ⟨applicator, found, pushes⟩
    exact ⟨(key, applicator), SortedMap.mem_entries_iff.mpr found,
      List.mem_map.mpr ⟨delta, pushes, rfl⟩⟩

theorem delta_logged {delta : StorageDelta} (member : (key, delta) ∈ proxy.deltas) :
    key ∈ proxy.loggedKeys := by
  obtain ⟨applicator, found, _⟩ := mem_deltas.mp member
  exact SortedMap.mem_keys_iff.mpr (found ▸ Option.some_ne_none applicator)

def localOf (committed : CommittedValues) (key : AddressAndKey) (proxy : StorageProxy) :
    ProxyApplicator :=
  (proxy.cache.find key).getD (.onBase (committed key))

theorem get_local_eq : (proxy.getLocal committed key).1 = proxy.localOf committed key := by
  unfold getLocal localOf
  cases proxy.cache.find key <;> rfl

theorem get_local_cached :
    (proxy.getLocal committed key).2.cache.find key = some (proxy.localOf committed key) := by
  unfold getLocal localOf
  cases found : proxy.cache.find key with
  | none => exact SortedMap.find_assign_self
  | some applicator => exact found

theorem get_local_other {other : AddressAndKey} (different : other ≠ key) :
    (proxy.getLocal committed key).2.cache.find other = proxy.cache.find other := by
  unfold getLocal
  cases proxy.cache.find key with
  | none => exact SortedMap.find_assign_other different
  | some applicator => rfl

theorem get_local_local :
    (proxy.getLocal committed key).2.localOf committed key = proxy.localOf committed key := by
  rw [localOf, get_local_cached, Option.getD_some]

structure Wrote (committed : CommittedValues) (key : AddressAndKey) (delta : StorageDelta)
    (proxy after : StorageProxy) : Prop where
  applied : ∃ applicator, (proxy.localOf committed key).tryApply delta = .ok (true, applicator) ∧
    after.cache.find key = some applicator
  others : ∀ other, other ≠ key → after.cache.find other = proxy.cache.find other

theorem try_apply_wrote {delta : StorageDelta} {what : String} {after : StorageProxy}
    (returned : proxy.tryApply committed key delta what = .ok after) :
    Wrote committed key delta proxy after := by
  unfold tryApply at returned
  simp only [get_local_eq] at returned
  split at returned
  · rename_i applicator applied
    cases returned
    refine ⟨⟨applicator, applied, SortedMap.find_assign_self⟩, ?_⟩
    intro other different
    exact (SortedMap.find_assign_other different).trans (get_local_other different)
  · cases returned
  · cases returned

theorem try_apply_touched {delta : StorageDelta} {what : String} {after : StorageProxy}
    (returned : (proxy.getLocal committed key).2.tryApply committed key delta what = .ok after) :
    Wrote committed key delta proxy after := by
  obtain ⟨⟨applicator, applied, cached⟩, others⟩ := try_apply_wrote returned
  rw [get_local_local] at applied
  refine ⟨⟨applicator, applied, cached⟩, ?_⟩
  intro other different
  exact (others other different).trans (get_local_other different)

end StorageProxy

end Scs
