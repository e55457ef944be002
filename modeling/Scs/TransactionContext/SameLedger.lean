import Scs.StateDb.BlockStart
import Scs.StorageProxy.ObjectHistory
import Scs.TransactionContext.SyscallDeltas

/-!
# The same ledger over another opening

Without assets, what a ledger accepts and what it settles to depend on the committed
object and on the deltas only.
-/

namespace Scs

set_option autoImplicit false

open Ledger Lockstep

section Openings

variable {opening other : Opening} {live committed : Multiset StorageDelta}

/-- Without assets, only the committed object of an opening matters to a ledger. -/
theorem solvent_moved (base : other.base = opening.base)
    (solvent : Solvent opening live committed)
    (syscalls : ∀ delta ∈ live, delta.fromSyscall = true) (recommitted : Multiset StorageDelta) :
    Solvent other live recommitted := by
  obtain ⟨noOut, noIn⟩ := syscalls_move_no_asset syscalls
  have required : other.requiredType = opening.requiredType := by
    rw [Opening.requiredType, base]
    rfl
  have hashes : other.hashes = opening.hashes := by
    rw [Opening.hashes, base]
    rfl
  have limit : other.limit = opening.limit := by
    rw [Opening.limit, base]
    rfl
  constructor
  · exact solvent.implemented
  · rw [required]
    exact solvent.allowed
  · exact solvent.agreed
  · exact solvent.overdraft
  · rw [hashes, limit]
    exact solvent.room
  · rw [hashes]
    exact solvent.unseen
  · exact solvent.distinct
  · rw [noOut]
    exact Nat.zero_le _
  · have bounded := other.supply.toNat_lt
    rw [noIn]
    omega

theorem agreed_no_asset
    (noAsset : ∀ object, opening.base = some object → object.body.type ≠ .knownSupplyAsset)
    {value? : Option StorageDeltaClass} (classed : value? ≠ some .knownSupplyAsset)
    {agreed : StorageObject} (made : agreedObject opening.base value? = .ok (some agreed)) :
    agreed.body.type ≠ .knownSupplyAsset := by
  intro asset
  have typed := agreed_object_type made
  rw [asset] at typed
  cases value? with
  | none =>
      rw [Option.map_none, Option.none_or, Opening.requiredType] at typed
      obtain ⟨object, stored, same⟩ := Option.map_eq_some_iff.mp typed.symm
      exact noAsset object stored same
  | some value =>
      cases value with
      | knownSupplyAsset => exact classed rfl
      | _ => cases typed

theorem settle_moved (base : other.base = opening.base)
    (noAsset : ∀ object, opening.base = some object → object.body.type ≠ .knownSupplyAsset)
    {value? : Option StorageDeltaClass} (classed : value? ≠ some .knownSupplyAsset) :
    settle other value? committed = settle opening value? committed := by
  unfold settle
  rw [base]
  cases made : agreedObject opening.base value? with
  | error fault => rfl
  | ok start =>
      cases start with
      | none => rfl
      | some agreed =>
          have plain := agreed_no_asset noAsset classed made
          have body : settleBody other committed agreed = settleBody opening committed agreed := by
            obtain ⟨body, fee⟩ := agreed
            cases body with
            | asset asset => exact absurd rfl plain
            | _ => rfl
          simp only [bind, Except.bind, body]

theorem settle_no_asset
    (noAsset : ∀ object, opening.base = some object → object.body.type ≠ .knownSupplyAsset)
    {value? : Option StorageDeltaClass} (classed : value? ≠ some .knownSupplyAsset)
    {settled : StorageObject} (returned : settle opening value? committed = .ok (some settled)) :
    settled.body.type ≠ .knownSupplyAsset := by
  obtain ⟨start, made, rest⟩ := bind_ok_iff.mp returned
  cases start with
  | none => cases rest
  | some agreed =>
      simp only at rest
      split_ifs at rest
      · cases rest
      · obtain ⟨last, finished, same⟩ := bind_ok_iff.mp rest
        cases same
        rw [settle_body_type finished]
        exact agreed_no_asset noAsset classed made

theorem agreed_class_no_asset {cryptoShorthash : CryptoShorthash} {agreement : Agreement}
    {object : RevertableObject}
    (accounts : Accounts cryptoShorthash opening 0 committed agreement object)
    (syscalls : ∀ delta ∈ committed, delta.fromSyscall = true) :
    agreement.value? ≠ some .knownSupplyAsset := by
  intro asset
  obtain ⟨delta, member, classed⟩ := (agreed_value_iff accounts _).mp asset
  have syscall := syscalls delta member
  cases delta with
  | assetObjectAdd d => cases syscall
  | _ => cases classed

/-- Objects over the same committed value, on which the same was committed, settle alike. -/
theorem closed_round_alike {cryptoShorthash : CryptoShorthash} {base : Option StorageObject}
    {left right : RevertableObject} (leftClosed : Closed cryptoShorthash base committed left)
    (rightClosed : Closed cryptoShorthash base committed right)
    (noAsset : ∀ object, base = some object → object.body.type ≠ .knownSupplyAsset)
    (syscalls : ∀ delta ∈ committed, delta.fromSyscall = true) :
    left.commitRound.map RevertableObject.getCommittedObject =
      right.commitRound.map RevertableObject.getCommittedObject := by
  obtain ⟨_, here, agreement, hereBase, accounts⟩ := leftClosed
  obtain ⟨_, there, required, thereBase, otherAccounts⟩ := rightClosed
  have valued : agreement.value? = required.value? := by
    apply Option.ext
    intro value
    rw [agreed_value_iff accounts value, agreed_value_iff otherAccounts value]
  rw [commit_round_settles accounts, commit_round_settles otherAccounts, valued]
  apply settle_moved (hereBase.trans thereBase.symm)
  · intro object stored
    exact noAsset object (thereBase.symm.trans stored)
  · exact agreed_class_no_asset otherAccounts syscalls

theorem closed_round_no_asset {cryptoShorthash : CryptoShorthash} {base : Option StorageObject}
    {object : RevertableObject} (closed : Closed cryptoShorthash base committed object)
    (noAsset : ∀ stored, base = some stored → stored.body.type ≠ .knownSupplyAsset)
    (syscalls : ∀ delta ∈ committed, delta.fromSyscall = true) {settled : StorageObject}
    (round : object.commitRound.map RevertableObject.getCommittedObject = .ok (some settled)) :
    settled.body.type ≠ .knownSupplyAsset := by
  obtain ⟨_, opening, agreement, rfl, accounts⟩ := closed
  rw [commit_round_settles accounts] at round
  exact settle_no_asset noAsset (agreed_class_no_asset accounts syscalls) round

end Openings

end Scs
