import Scs.Object.OrderFree

/-!
# Asset deltas in any order

Committed deposits of an asset are at once available to later withdrawals, so
acceptance depends on the order. It does not when the committed amount alone
covers all withdrawals and leaves room for all deposits.
-/

namespace Scs

set_option autoImplicit false

open Ledger

/-- `make_asset_add` for every amount, each with the ids it draws. -/
def assetAdds (adds : List (CallIds × Int64)) : List (CallIds × StorageDelta) :=
  adds.map fun add => (add.1, makeAssetAdd add.2)

def withdrawn (adds : List (CallIds × Int64)) : ℕ :=
  (adds.map fun add => (-add.2.toInt).toNat).sum

def deposited (adds : List (CallIds × Int64)) : ℕ :=
  (adds.map fun add => add.2.toInt.toNat).sum

def assetBase (amount fee : UInt64) : StorageObject where
  body := .asset { amount := amount }
  escrowedFee := fee

section Amounts

variable (adds : List (CallIds × Int64))

theorem asset_out_total : total StorageDelta.assetOut (deltasOf (assetAdds adds)) =
    withdrawn adds := by
  simp only [total, deltasOf, assetAdds, withdrawn, Multiset.map_coe, Multiset.sum_coe,
    List.map_map]
  rfl

theorem asset_in_total : total StorageDelta.assetIn (deltasOf (assetAdds adds)) =
    deposited adds := by
  simp only [total, deltasOf, assetAdds, deposited, Multiset.map_coe, Multiset.sum_coe,
    List.map_map]
  rfl

theorem mem_asset_adds {delta : StorageDelta} (member : delta ∈ deltasOf (assetAdds adds)) :
    ∃ amount, delta = makeAssetAdd amount := by
  obtain ⟨call, inside, rfl⟩ := List.mem_map.mp (Multiset.mem_coe.mp member)
  obtain ⟨add, _, rfl⟩ := List.mem_map.mp inside
  exact ⟨add.2, rfl⟩

theorem asset_adds_inserts : inserts (deltasOf (assetAdds adds)) = 0 := by
  apply Multiset.eq_zero_of_forall_notMem
  intro hash impossible
  obtain ⟨delta, member, inserted⟩ := (Multiset.mem_filterMap _ _).mp impossible
  obtain ⟨amount, rfl⟩ := mem_asset_adds adds member
  cases inserted

/-- Asset deltas that fit the committed amount by themselves are solvent,
whatever is committed. -/
theorem asset_adds_solvent {amount fee : UInt64} (covered : withdrawn adds ≤ amount.toNat)
    (room : amount.toNat + deposited adds < 2 ^ 64) (committed : Multiset StorageDelta) :
    Solvent (.onBase (some (assetBase amount fee))) (deltasOf (assetAdds adds)) committed := by
  have supply : (Opening.onBase (some (assetBase amount fee))).supply = amount := rfl
  have inserted := asset_adds_inserts adds
  constructor
  · intro delta member
    obtain ⟨amount, rfl⟩ := mem_asset_adds adds member
    rfl
  · intro delta member value own required type
    obtain ⟨amount, rfl⟩ := mem_asset_adds adds member
    cases own
    cases type
    rfl
  · intro delta member other otherMember value own otherValue otherOwn
    obtain ⟨amount, rfl⟩ := mem_asset_adds adds member
    obtain ⟨amount, rfl⟩ := mem_asset_adds adds otherMember
    exact Option.some_inj.mp (own.symm.trans otherOwn)
  · intro setAdd member
    obtain ⟨amount, impossible⟩ := mem_asset_adds adds member
    cases impossible
  · exact fun nonempty => absurd inserted nonempty
  · intro hash impossible
    rw [inserted] at impossible
    exact absurd impossible (Multiset.notMem_zero hash)
  · rw [inserted]
    exact Multiset.nodup_zero
  · rw [asset_out_total, supply]
    omega
  · rw [asset_in_total, supply]
    omega

end Amounts

section Order

variable {cryptoShorthash : CryptoShorthash} {amount fee : UInt64}

theorem accepts_all_prefix (first second : List (CallIds × StorageDelta)) {allocated : ℕ}
    {object : RevertableObject}
    (accepted : AcceptsAll cryptoShorthash allocated (first ++ second) object) :
    AcceptsAll cryptoShorthash allocated first object := by
  induction first generalizing object allocated with
  | nil => exact ⟨object, rfl⟩
  | cons call rest induction =>
      obtain ⟨ids, delta⟩ := call
      obtain ⟨final, accepted⟩ := accepted
      simp only [List.cons_append, pushAndCommitAll, bind, Except.bind] at accepted
      cases first : pushAndCommit cryptoShorthash (ids.holding allocated) delta object with
      | error fault =>
          rw [first] at accepted
          cases accepted
      | ok answer =>
          rw [first] at accepted
          cases answer with
          | none => cases accepted
          | some next =>
              obtain ⟨last, kept⟩ := induction ⟨final, accepted⟩
              exact ⟨last, by simp only [pushAndCommitAll, bind, Except.bind, first, kept]⟩

theorem sums_of_perm {adds reordered : List (CallIds × Int64)}
    (same : (reordered.map Prod.snd).Perm (adds.map Prod.snd)) :
    withdrawn reordered = withdrawn adds ∧ deposited reordered = deposited adds := by
  have out := (same.map fun amount : Int64 => (-amount.toInt).toNat).sum_eq
  have paid := (same.map fun amount : Int64 => amount.toInt.toNat).sum_eq
  rw [List.map_map, List.map_map] at out paid
  exact ⟨out, paid⟩

theorem accepted_first_solvent (first second : List (CallIds × Int64)) {allocated : ℕ}
    (accepted : AcceptsAll cryptoShorthash allocated (assetAdds (first ++ second))
      (.onBase (some (assetBase amount fee)))) :
    Solvent (.onBase (some (assetBase amount fee))) (deltasOf (assetAdds first))
      (deltasOf (assetAdds first)) := by
  have started := round_start_over cryptoShorthash (some (assetBase amount fee))
  rw [assetAdds, List.map_append] at accepted
  have alone := accepts_all_prefix _ _ accepted
  have solvent := (accepts_all_solvent _ started.accounts alone).1
  rw [add_zero] at solvent
  exact solvent

theorem withdrawn_append (first second : List (CallIds × Int64)) :
    withdrawn (first ++ second) = withdrawn first + withdrawn second := by
  rw [withdrawn, List.map_append, List.sum_append]
  rfl

theorem deposited_append (first second : List (CallIds × Int64)) :
    deposited (first ++ second) = deposited first + deposited second := by
  rw [deposited, List.map_append, List.sum_append]
  rfl

theorem withdrawn_nonnegative {adds : List (CallIds × Int64)}
    (nonnegative : ∀ add ∈ adds, 0 ≤ add.2.toInt) : withdrawn adds = 0 := by
  apply List.sum_eq_zero
  intro amount member
  obtain ⟨add, inside, rfl⟩ := List.mem_map.mp member
  have sign := nonnegative add inside
  omega

theorem deposited_negative {adds : List (CallIds × Int64)}
    (negative : ∀ add ∈ adds, add.2.toInt < 0) : deposited adds = 0 := by
  apply List.sum_eq_zero
  intro amount member
  obtain ⟨add, inside, rfl⟩ := List.mem_map.mp member
  have sign := negative add inside
  omega

/-- Asset deltas are accepted in every order exactly when the committed amount
covers all withdrawals and leaves room for all deposits. -/
theorem asset_order_free_iff (cryptoShorthash : CryptoShorthash) (amount fee : UInt64)
    (allocated : ℕ) (adds : List (CallIds × Int64)) :
    (∀ reordered : List (CallIds × Int64), (reordered.map Prod.snd).Perm (adds.map Prod.snd) →
      AcceptsAll cryptoShorthash allocated (assetAdds reordered)
        (.onBase (some (assetBase amount fee)))) ↔
    withdrawn adds ≤ amount.toNat ∧ amount.toNat + deposited adds < 2 ^ 64 := by
  constructor
  · intro accepted
    let negative := fun add : CallIds × Int64 => decide (add.2.toInt < 0)
    let taken := adds.filter negative
    let given := adds.filter fun add => !negative add
    have takenNegative : ∀ add ∈ taken, add.2.toInt < 0 :=
      fun add member => of_decide_eq_true (List.mem_filter.mp member).2
    have givenNonnegative : ∀ add ∈ given, 0 ≤ add.2.toInt := by
      intro add member
      have sign := (List.mem_filter.mp member).2
      simp only [negative, Bool.not_eq_true', decide_eq_false_iff_not] at sign
      omega
    have outFirst : (taken ++ given).Perm adds := List.filter_append_perm negative adds
    have inFirst : (given ++ taken).Perm adds := List.perm_append_comm.trans outFirst
    have supply : (Opening.onBase (some (assetBase amount fee))).supply = amount := rfl
    have sums := sums_of_perm (outFirst.map Prod.snd)
    have noneTaken := withdrawn_nonnegative givenNonnegative
    have noneGiven := deposited_negative takenNegative
    rw [withdrawn_append, deposited_append] at sums
    constructor
    · have lower := (accepted_first_solvent taken given
        (accepted _ (outFirst.map Prod.snd))).assetLower
      rw [asset_out_total, asset_in_total, supply] at lower
      omega
    · have upper := (accepted_first_solvent given taken
        (accepted _ (inFirst.map Prod.snd))).assetUpper
      rw [asset_out_total, asset_in_total, supply] at upper
      omega
  · intro ⟨covered, room⟩ reordered same
    have started := round_start_over cryptoShorthash (some (assetBase amount fee))
    obtain ⟨out, paid⟩ := sums_of_perm same
    rw [← out] at covered
    rw [← paid] at room
    apply accepts_all_of_solvent _ started.accounts
    · intro other
      rw [add_zero]
      exact asset_adds_solvent reordered covered room other
    · rw [asset_adds_inserts]
      exact Nat.zero_le _
    · rw [asset_adds_inserts]
      exact Nat.zero_le _

/-- A withdrawal of what was deposited before is refused when it comes first. -/
theorem asset_order_matters : ¬ ∀ cryptoShorthash amount fee allocated
    (adds reordered : List (CallIds × Int64)),
    AcceptsAll cryptoShorthash allocated (assetAdds adds)
      (.onBase (some (assetBase amount fee))) →
    (reordered.map Prod.snd).Perm (adds.map Prod.snd) →
    AcceptsAll cryptoShorthash allocated (assetAdds reordered)
      (.onBase (some (assetBase amount fee))) := by
  intro claimed
  have inOrder : AcceptsAll (fun _ => 0) 0 (assetAdds [(.first, 10), (.first, -10)])
      (.onBase (some (assetBase 0 0))) := ⟨_, rfl⟩
  obtain ⟨final, accepted⟩ := claimed (fun _ => 0) 0 0 0 [(.first, 10), (.first, -10)]
    [(.first, -10), (.first, 10)] inOrder (List.Perm.swap _ _ _)
  cases accepted

end Order

end Scs
