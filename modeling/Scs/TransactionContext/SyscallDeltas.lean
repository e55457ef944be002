import Scs.TransactionContext.BlockBalance
import Scs.TransactionContext.CallSafety
import Scs.TransactionContext.SnapshotReads

/-!
# What contracts can push

No syscall reaches `asset_add`, so what a transaction pushes never changes the
supply of an asset.
-/

namespace Scs

set_option autoImplicit false

open Ledger Lockstep Runs

def Program.NoAssets (program : Program) : Prop :=
  ∀ results key d, program results ≠ .call (.assetAdd key d)

section Applicator

variable {applicator next : ProxyApplicator} {d : StorageDelta}

theorem try_apply_asset (syscall : d.fromSyscall = true)
    (accepted : applicator.tryApply d = .ok (true, next)) : next.delta = applicator.delta := by
  cases try_apply_cases accepted with
  | deleted => rfl
  | typed present applied =>
      cases d with
      | rawMemoryWrite data =>
          obtain ⟨object, _, same⟩ := bind_ok_iff.mp applied
          cases same
          rfl
      | nonnegativeInt64SetAdd setAdd =>
          change ProxyApplicator.applySetAdd setAdd applicator = .ok (true, next) at applied
          unfold ProxyApplicator.applySetAdd at applied
          simp only at applied
          split_ifs at applied
          · cases applied
          · obtain ⟨answer, _, rest⟩ := bind_ok_iff.mp applied
            cases answer with
            | none => cases rest
            | some merged =>
                obtain ⟨object, _, rest⟩ := bind_ok_iff.mp rest
                obtain ⟨value, _, rest⟩ := bind_ok_iff.mp rest
                cases rest
                rfl
      | hashSetInsert hash =>
          obtain ⟨object, _, rest⟩ := bind_ok_iff.mp applied
          obtain ⟨set, _, rest⟩ := bind_ok_iff.mp rest
          simp only at rest
          split_ifs at rest <;> cases rest
          rfl
      | hashSetIncreaseLimit limitIncrease =>
          obtain ⟨object, _, same⟩ := bind_ok_iff.mp applied
          cases same
          rfl
      | hashSetClear threshold =>
          obtain ⟨object, _, rest⟩ := bind_ok_iff.mp applied
          obtain ⟨set, _, rest⟩ := bind_ok_iff.mp rest
          obtain ⟨cleared, _, same⟩ := bind_ok_iff.mp rest
          cases same
          rfl
      | deleteLast => cases applied
      | _ => cases syscall

theorem get_deltas_from_syscall (unseen : applicator.delta = none)
    (member : d ∈ applicator.getDeltas) : d.fromSyscall = true := by
  unfold ProxyApplicator.getDeltas at member
  rw [unseen] at member
  split at member
  · cases member
  · simp only [List.mem_append, Option.mem_toList, Option.map_eq_some_iff, Option.map_none,
      List.mem_map, reduceCtorEq, or_false] at member
    rcases member with ((((⟨_, _, rfl⟩ | ⟨_, _, rfl⟩) | member) | ⟨_, _, rfl⟩) | ⟨_, _, rfl⟩) |
      member
    · rfl
    · rfl
    · split_ifs at member
      · rw [List.mem_singleton.mp member]
        rfl
      · cases member
    · rfl
    · rfl
    · split_ifs at member
      · rw [List.mem_singleton.mp member]
        rfl
      · cases member

end Applicator

section Context

variable {library : ContractLibrary} {committed : CommittedValues} {contractDb : ContractDB}
  {program : Program} {context : TransactionContext}

def AssetFree (committed : CommittedValues) (proxy : StorageProxy) : Prop :=
  ∀ key, (proxy.localOf committed key).delta = none

theorem advance_asset_free (none_calls : program.NoAssets)
    (free : AssetFree committed context.storageProxy) :
    AssetFree committed (context.advance library committed contractDb program).storageProxy := by
  generalize advanced : context.advance library committed contractDb program = final
  have cases : TransactionContext.AdvanceCases library committed contractDb program context
      (context.advance library committed contractDb program) :=
    TransactionContext.advance_cases program context
  rw [advanced] at cases
  cases cases with
  | stopped status => exact free
  | returned status halts => exact free
  | threw status => exact free
  | performed status called returned =>
      intro other
      simp only
      rcases perform_writes returned with same | ⟨key, delta, emitted, wrote⟩
      · rw [same other]
        exact free other
      · have syscall : delta.fromSyscall = true := by
          rcases emitted with syscall | ⟨d, _, asset⟩
          · exact syscall
          · exact absurd (asset ▸ called) (none_calls _ _ _)
        by_cases here : other = key
        · subst here
          exact (try_apply_asset syscall (wrote_local wrote)).trans (free other)
        · have apart : some key ≠ some other := fun same => here (Option.some_inj.mp same).symm
          rw [wrote_elsewhere wrote apart]
          exact free other

theorem deltas_from_syscall {proxy : StorageProxy} (free : AssetFree committed proxy)
    {key : AddressAndKey} {delta : StorageDelta} (member : (key, delta) ∈ proxy.deltas) :
    delta.fromSyscall = true := by
  obtain ⟨applicator, found, pushed⟩ := StorageProxy.mem_deltas.mp member
  apply get_deltas_from_syscall _ pushed
  have own := free key
  rw [StorageProxy.localOf, found] at own
  exact own

end Context

section Block

variable {cryptoShorthash : CryptoShorthash} {library : ContractLibrary} {Tx : Type*}
  {Database : Type} [DecidableEq Tx] {store : StateStore Database} {programs : Tx → Program}
  {globalContext : GlobalContext Database} {moves : List (BlockMove Tx)}
  {block : BlockExecution Tx Database}

theorem pushes_from_syscall (steady : SteadyStore store)
    (run : Run (MovesBlock cryptoShorthash library store programs) (.start globalContext) moves
      block) {tx : Tx} (none_calls : (programs tx).NoAssets) {key : AddressAndKey}
    {delta : StorageDelta} (member : (key, delta) ∈ block.pushes tx) :
    delta.fromSyscall = true := by
  have free : AssetFree (fun key => store.getCommittedValue key globalContext.stateDb)
      (block.contexts tx).storageProxy := by
    apply context_invariant steady run tx (fun context => AssetFree _ context.storageProxy)
    · exact fun _ => rfl
    · exact fun _ free => advance_asset_free none_calls free
  unfold BlockExecution.pushes TransactionContext.pushes at member
  split at member
  · exact deltas_from_syscall free member
  · cases member

end Block

theorem syscalls_move_no_asset {deltas : Multiset StorageDelta}
    (syscalls : ∀ delta ∈ deltas, delta.fromSyscall = true) :
    total StorageDelta.assetOut deltas = 0 ∧ total StorageDelta.assetIn deltas = 0 := by
  have none_moved : ∀ delta ∈ deltas, delta.assetOut = 0 ∧ delta.assetIn = 0 := by
    intro delta member
    have syscall := syscalls delta member
    cases delta <;> first | exact ⟨rfl, rfl⟩ | cases syscall
  exact ⟨total_eq_zero fun delta member => (none_moved delta member).1,
    total_eq_zero fun delta member => (none_moved delta member).2⟩

end Scs
