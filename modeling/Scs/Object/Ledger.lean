import Scs.Xdr.Storage
import Mathlib.Algebra.BigOperators.Group.Multiset.Basic

/-!
# The ledger of one object in one block

The abstract account of a round: which deltas are live (accepted and not
reverted) and which of these are committed, as multisets. A ledger is solvent
when the live deltas agree on a base value and respect every limit of the
committed object. No order of arrival appears in it.
-/

namespace Scs

set_option autoImplicit false

/-! ## What one delta asks for -/

namespace StorageDelta

def class? : StorageDelta → Option StorageDeltaClass
  | .rawMemoryWrite data => some (.rawMemory data)
  | .nonnegativeInt64SetAdd setAdd => some (.nonnegativeInt64 setAdd.setValue)
  | .hashSetInsert _ => some .hashSet
  | .hashSetIncreaseLimit _ => some .hashSet
  | .hashSetClear _ => some .hashSet
  | .assetObjectAdd _ => some .knownSupplyAsset
  | _ => none

def withdrawal : StorageDelta → ℕ
  | .nonnegativeInt64SetAdd setAdd => (-setAdd.delta.toInt).toNat
  | _ => 0

def deposit : StorageDelta → ℕ
  | .nonnegativeInt64SetAdd setAdd => setAdd.delta.toInt.toNat
  | _ => 0

def limitRaise : StorageDelta → ℕ
  | .hashSetIncreaseLimit limitIncrease => limitIncrease.toNat
  | _ => 0

def assetOut : StorageDelta → ℕ
  | .assetObjectAdd d => (-d.toInt).toNat
  | _ => 0

def assetIn : StorageDelta → ℕ
  | .assetObjectAdd d => d.toInt.toNat
  | _ => 0

def inserted? : StorageDelta → Option HashSetEntry
  | .hashSetInsert hash => some hash
  | _ => none

def isClear : StorageDelta → Bool
  | .hashSetClear _ => true
  | _ => false

def clearThreshold : StorageDelta → ℕ
  | .hashSetClear threshold => threshold.toNat
  | _ => 0

end StorageDelta

/-! ## Sums over a ledger -/

namespace Ledger

def total (measure : StorageDelta → ℕ) (deltas : Multiset StorageDelta) : ℕ :=
  (deltas.map measure).sum

def inserts (deltas : Multiset StorageDelta) : Multiset HashSetEntry :=
  deltas.filterMap StorageDelta.inserted?

section Sums

variable (measure : StorageDelta → ℕ)

@[simp] theorem total_zero : total measure 0 = 0 := rfl

@[simp] theorem total_cons (delta : StorageDelta) (deltas : Multiset StorageDelta) :
    total measure (delta ::ₘ deltas) = measure delta + total measure deltas := by
  simp only [total, Multiset.map_cons, Multiset.sum_cons]

theorem total_add (left right : Multiset StorageDelta) :
    total measure (left + right) = total measure left + total measure right := by
  simp only [total, Multiset.map_add, Multiset.sum_add]

theorem total_eq_zero {measure : StorageDelta → ℕ} {deltas : Multiset StorageDelta}
    (none_measured : ∀ delta ∈ deltas, measure delta = 0) : total measure deltas = 0 := by
  apply Multiset.sum_eq_zero
  intro amount member
  obtain ⟨delta, inside, rfl⟩ := Multiset.mem_map.mp member
  exact none_measured delta inside

theorem total_mono {left right : Multiset StorageDelta} (smaller : left ≤ right) :
    total measure left ≤ total measure right := by
  obtain ⟨rest, rfl⟩ := Multiset.le_iff_exists_add.mp smaller
  rw [total_add]
  exact Nat.le_add_right _ _

end Sums

@[simp] theorem inserts_zero : inserts 0 = 0 := rfl

theorem inserts_cons (delta : StorageDelta) (deltas : Multiset StorageDelta) :
    inserts (delta ::ₘ deltas) = ↑delta.inserted?.toList + inserts deltas := by
  unfold inserts
  cases found : delta.inserted? with
  | none =>
      rw [Multiset.filterMap_cons_none _ _ found]
      exact (zero_add _).symm
  | some hash =>
      rw [Multiset.filterMap_cons_some _ _ _ found]
      exact (Multiset.singleton_add hash _).symm

theorem inserts_insert (hash : HashSetEntry) (deltas : Multiset StorageDelta) :
    inserts (.hashSetInsert hash ::ₘ deltas) = hash ::ₘ inserts deltas :=
  Multiset.filterMap_cons_some _ _ _ rfl

theorem inserts_skip {delta : StorageDelta} (none_inserted : delta.inserted? = none)
    (deltas : Multiset StorageDelta) : inserts (delta ::ₘ deltas) = inserts deltas :=
  Multiset.filterMap_cons_none _ _ none_inserted

theorem inserts_mono {left right : Multiset StorageDelta} (smaller : left ≤ right) :
    inserts left ≤ inserts right :=
  Multiset.filterMap_le_filterMap _ smaller

/-! ## What a round starts from -/

/-- The amount that the asset counters take from a committed object. -/
def assetAmount : Option StorageObject → UInt64
  | some { body := .asset asset, .. } => asset.amount
  | _ => 0

/-- The committed object and the amount that both asset counters hold. The two
differ only after a deletion: the counters of a deleted asset keep its amount. -/
structure Opening where
  base : Option StorageObject
  supply : UInt64

namespace Opening

def onBase (base : Option StorageObject) : Opening where
  base := base
  supply := assetAmount base

def requiredType (opening : Opening) : Option ObjectType :=
  opening.base.map fun object => object.body.type

def hashes (opening : Opening) : List HashSetEntry :=
  match opening.base with
  | some { body := .hashSet set, .. } => set.hashes
  | _ => []

def limit (opening : Opening) : ℕ :=
  match opening.base with
  | some { body := .hashSet set, .. } => set.maxSize.toNat
  | _ => startHashSetSize.toNat

end Opening

/-- Every rule that the live deltas of a round keep together. A ledger that is solvent stays
so when a live delta is given back, in any order. -/
structure Solvent (opening : Opening) (live committed : Multiset StorageDelta) :
    Prop where
  implemented : ∀ delta ∈ live, delta.implemented = true
  allowed : ∀ delta ∈ live, ∀ value, delta.class? = some value →
    ∀ type, opening.requiredType = some type → value.type = type
  agreed : ∀ delta ∈ live, ∀ other ∈ live, ∀ value, delta.class? = some value →
    ∀ otherValue, other.class? = some otherValue → value = otherValue
  overdraft : ∀ setAdd, StorageDelta.nonnegativeInt64SetAdd setAdd ∈ live →
    setAdd.delta.toInt < 0 →
    (total StorageDelta.withdrawal live : ℤ) ≤ setAdd.setValue.toInt
  room : inserts live ≠ 0 → opening.hashes.length + (inserts live).card ≤ opening.limit
  unseen : ∀ hash ∈ inserts live, hash ∉ opening.hashes
  distinct : (inserts live).Nodup
  assetLower : total StorageDelta.assetOut live ≤
    opening.supply.toNat + total StorageDelta.assetIn committed
  assetUpper : opening.supply.toNat + total StorageDelta.assetIn live <
    2 ^ 64 + total StorageDelta.assetOut committed

theorem solvent_zero (opening : Opening) : Solvent opening 0 0 where
  implemented _ member := absurd member (Multiset.notMem_zero _)
  allowed _ member := absurd member (Multiset.notMem_zero _)
  agreed _ member := absurd member (Multiset.notMem_zero _)
  overdraft _ member := absurd member (Multiset.notMem_zero _)
  room nonempty := absurd rfl nonempty
  unseen _ member := absurd member (Multiset.notMem_zero _)
  distinct := Multiset.nodup_zero
  assetLower := Nat.zero_le _
  assetUpper := by
    have bounded := opening.supply.toNat_lt
    rw [total_zero, total_zero]
    omega

/-- A ledger stays solvent when live deltas are taken away and when live deltas
are committed. -/
theorem solvent_mono {opening : Opening}
    {live live' committed committed' : Multiset StorageDelta}
    (solvent : Solvent opening live committed) (smaller : live' ≤ live)
    (later : committed ≤ committed') : Solvent opening live' committed' where
  implemented delta member := solvent.implemented delta (Multiset.mem_of_le smaller member)
  allowed delta member := solvent.allowed delta (Multiset.mem_of_le smaller member)
  agreed delta member other otherMember :=
    solvent.agreed delta (Multiset.mem_of_le smaller member) other
      (Multiset.mem_of_le smaller otherMember)
  overdraft setAdd member negative := by
    have bound := solvent.overdraft setAdd (Multiset.mem_of_le smaller member) negative
    have less := total_mono StorageDelta.withdrawal smaller
    omega
  room nonempty := by
    have included := inserts_mono smaller
    have bound := solvent.room (fun empty => nonempty (Multiset.le_zero.mp (empty ▸ included)))
    have less := Multiset.card_le_card included
    omega
  unseen hash member := solvent.unseen hash (Multiset.mem_of_le (inserts_mono smaller) member)
  distinct := Multiset.nodup_of_le (inserts_mono smaller) solvent.distinct
  assetLower := by
    have bound := solvent.assetLower
    have less := total_mono StorageDelta.assetOut smaller
    have more := total_mono StorageDelta.assetIn later
    omega
  assetUpper := by
    have bound := solvent.assetUpper
    have less := total_mono StorageDelta.assetIn smaller
    have more := total_mono StorageDelta.assetOut later
    omega

theorem withdrawals_zero_or (deltas : Multiset StorageDelta) :
    total StorageDelta.withdrawal deltas = 0 ∨
      ∃ setAdd, StorageDelta.nonnegativeInt64SetAdd setAdd ∈ deltas ∧ setAdd.delta.toInt < 0 := by
  by_cases some_negative : ∃ setAdd, StorageDelta.nonnegativeInt64SetAdd setAdd ∈ deltas ∧
      setAdd.delta.toInt < 0
  · exact Or.inr some_negative
  · left
    apply Multiset.sum_eq_zero
    intro amount member
    obtain ⟨delta, live_delta, rfl⟩ := Multiset.mem_map.mp member
    cases delta with
    | nonnegativeInt64SetAdd setAdd =>
        have nonnegative : ¬ setAdd.delta.toInt < 0 :=
          fun negative => some_negative ⟨setAdd, live_delta, negative⟩
        simp only [StorageDelta.withdrawal]
        omega
    | _ => rfl

/-- Live withdrawals never exceed the largest amount a word can hold. -/
theorem withdrawals_bounded {opening : Opening}
    {live committed : Multiset StorageDelta} (solvent : Solvent opening live committed) :
    total StorageDelta.withdrawal live < 2 ^ 63 := by
  rcases withdrawals_zero_or live with zero | ⟨setAdd, member, negative⟩
  · rw [zero]
    decide
  · have bound := solvent.overdraft setAdd member negative
    have limit := setAdd.setValue.toInt_lt
    omega

/-! ## One more delta -/

/-- The new delta sets a value of the required type that no live delta disputes. -/
structure Compatible (opening : Opening) (live : Multiset StorageDelta)
    (delta : StorageDelta) : Prop where
  implemented : delta.implemented = true
  allowed : ∀ value, delta.class? = some value →
    ∀ type, opening.requiredType = some type → value.type = type
  agreed : ∀ value, delta.class? = some value →
    ∀ other ∈ live, ∀ otherValue, other.class? = some otherValue → value = otherValue

/-- What a solvent ledger needs in order to stay solvent with one more delta. The acceptance
of a push is decided by this and by the free slots alone. -/
structure Affordable (opening : Opening) (live committed : Multiset StorageDelta)
    (delta : StorageDelta) : Prop extends Compatible opening live delta where
  overdraft : ∀ setAdd, delta = .nonnegativeInt64SetAdd setAdd → setAdd.delta.toInt < 0 →
    (delta.withdrawal + total StorageDelta.withdrawal live : ℤ) ≤ setAdd.setValue.toInt
  room : ∀ hash, delta = .hashSetInsert hash →
    opening.hashes.length + (inserts live).card + 1 ≤ opening.limit ∧
      hash ∉ opening.hashes ∧ hash ∉ inserts live
  assetLower : delta.assetOut + total StorageDelta.assetOut live ≤
    opening.supply.toNat + total StorageDelta.assetIn committed
  assetUpper : opening.supply.toNat + (delta.assetIn + total StorageDelta.assetIn live) <
    2 ^ 64 + total StorageDelta.assetOut committed

theorem affordable_of_solvent_cons {opening : Opening}
    {live committed : Multiset StorageDelta} {delta : StorageDelta}
    (solvent : Solvent opening (delta ::ₘ live) committed) :
    Affordable opening live committed delta where
  implemented := solvent.implemented delta (Multiset.mem_cons_self delta live)
  allowed := solvent.allowed delta (Multiset.mem_cons_self delta live)
  agreed value own other member :=
    solvent.agreed delta (Multiset.mem_cons_self delta live) other
      (Multiset.mem_cons_of_mem member) value own
  overdraft setAdd same negative := by
    have bound := solvent.overdraft setAdd (same ▸ Multiset.mem_cons_self delta live) negative
    rw [total_cons] at bound
    exact_mod_cast bound
  room hash same := by
    have room := solvent.room
    have unseen := solvent.unseen
    have distinct := solvent.distinct
    subst same
    rw [inserts_insert] at room unseen distinct
    rw [Multiset.nodup_cons] at distinct
    have counted := room Multiset.cons_ne_zero
    rw [Multiset.card_cons] at counted
    exact ⟨counted, unseen hash (Multiset.mem_cons_self hash _), distinct.1⟩
  assetLower := by
    have bound := solvent.assetLower
    rwa [total_cons] at bound
  assetUpper := by
    have bound := solvent.assetUpper
    rwa [total_cons] at bound

theorem solvent_cons_of_affordable {opening : Opening}
    {live committed : Multiset StorageDelta} {delta : StorageDelta}
    (solvent : Solvent opening live committed)
    (affordable : Affordable opening live committed delta) :
    Solvent opening (delta ::ₘ live) committed where
  implemented := by
    rw [Multiset.forall_mem_cons]
    exact ⟨affordable.implemented, solvent.implemented⟩
  allowed := by
    rw [Multiset.forall_mem_cons]
    exact ⟨affordable.allowed, solvent.allowed⟩
  agreed first firstMember second secondMember value own otherValue other := by
    rcases Multiset.mem_cons.mp firstMember with rfl | firstLive
    · rcases Multiset.mem_cons.mp secondMember with rfl | secondLive
      · exact Option.some_inj.mp (own.symm.trans other)
      · exact affordable.agreed value own second secondLive otherValue other
    · rcases Multiset.mem_cons.mp secondMember with rfl | secondLive
      · exact (affordable.agreed otherValue other first firstLive value own).symm
      · exact solvent.agreed first firstLive second secondLive value own otherValue other
  overdraft setAdd member negative := by
    rw [total_cons]
    rcases Multiset.mem_cons.mp member with same | already
    · exact_mod_cast affordable.overdraft setAdd same.symm negative
    · have bound := solvent.overdraft setAdd already negative
      -- A new withdrawal sets the same value, so its own bound covers the old ones.
      by_cases taken : delta.withdrawal = 0
      · rw [taken]
        omega
      · cases delta with
        | nonnegativeInt64SetAdd new =>
            have newNegative : new.delta.toInt < 0 := by
              simp only [StorageDelta.withdrawal] at taken
              omega
            have sameValue := affordable.agreed _ rfl _ already _ rfl
            have sameSet : new.setValue = setAdd.setValue := by
              injection sameValue
            have own := affordable.overdraft new rfl newNegative
            rw [← sameSet]
            exact_mod_cast own
        | _ => exact absurd rfl taken
  room nonempty := by
    cases delta with
    | hashSetInsert hash =>
        have bound := (affordable.room hash rfl).1
        rw [inserts_insert, Multiset.card_cons]
        omega
    | _ =>
        rw [inserts_skip rfl] at nonempty ⊢
        exact solvent.room nonempty
  unseen := by
    cases delta with
    | hashSetInsert hash =>
        rw [inserts_insert, Multiset.forall_mem_cons]
        exact ⟨(affordable.room hash rfl).2.1, solvent.unseen⟩
    | _ =>
        rw [inserts_skip rfl]
        exact solvent.unseen
  distinct := by
    cases delta with
    | hashSetInsert hash =>
        rw [inserts_insert, Multiset.nodup_cons]
        exact ⟨(affordable.room hash rfl).2.2, solvent.distinct⟩
    | _ =>
        rw [inserts_skip rfl]
        exact solvent.distinct
  assetLower := by
    rw [total_cons]
    exact affordable.assetLower
  assetUpper := by
    rw [total_cons]
    exact affordable.assetUpper

end Ledger

end Scs
