import Mathlib.Logic.Relation
import Scs.StateDb.SettlingStore
import Scs.StorageProxy.CommittedBase
import Scs.TransactionContext.BlockLog

/-!
# Objects from one block to the next

In any chain of blocks every object starts a block with an empty ledger over its
committed value, whether the block before was committed or undone.
-/

namespace Scs

set_option autoImplicit false

open Ledger Runs TwoPhase

/-! ## The objects at the start of a block -/

/-- Every object has an empty ledger over what the database shows as committed. An empty
database is of this kind, and every end of a block leads there. -/
structure Rested {cryptoShorthash : CryptoShorthash} {Database : Type}
    {store : StateStore Database} (view : SettlingStore cryptoShorthash store)
    (db : Database) : Prop where
  sound : view.Sound db
  opened : ∀ key, ∃ opening : Opening, opening.base = store.getCommittedValue key db ∧
    Kempt opening.base ∧ Accounts cryptoShorthash opening 0 0 .undecided (view.objects db key)

section Block

variable {cryptoShorthash : CryptoShorthash} {library : ContractLibrary} {Tx : Type*}
  {Database : Type} [DecidableEq Tx] {store : StateStore Database}
  {view : SettlingStore cryptoShorthash store} {programs : Tx → Program}
  {globalContext : GlobalContext Database} {moves : List (BlockMove Tx)}
  {block : BlockExecution Tx Database} {newKey : HashKey} {keys : List AddressAndKey}
  {after : Database}

theorem run_logs_once
    (run : Run (MovesBlock cryptoShorthash library store programs) (.start globalContext) moves
      block) : block.modifiedKeys.Nodup := by
  apply run_invariant (fun block : BlockExecution Tx Database => block.modifiedKeys.Nodup) _ _ run
  · intro block move next distinct moves
    cases block_move_cases moves with
    | @passed tx deploys creates proxy status phase updates =>
        exact List.Nodup.union _ (SortedMap.keys_nodup _)
    | _ => exact distinct
  · exact List.nodup_nil

theorem unlogged_untouched
    (run : Run (MovesBlock cryptoShorthash library store programs) (.start globalContext) moves
      block) {key : AddressAndKey} (unlogged : key ∉ block.modifiedKeys) :
    deltasOn key block.books.committed = 0 := by
  apply Multiset.eq_zero_of_forall_notMem
  intro delta member
  obtain ⟨item, inside, made⟩ := (Multiset.mem_filterMap _ _).mp member
  split_ifs at made with same
  exact unlogged (same ▸ (run_logged run).committed item inside)

theorem run_sound (sound : view.Sound globalContext.stateDb)
    (run : Run (MovesBlock cryptoShorthash library store programs) (.start globalContext) moves
      block) : view.Sound block.globalContext.stateDb := by
  apply run_invariant
    (fun block : BlockExecution Tx Database => view.Sound block.globalContext.stateDb) _ sound run
  intro block move next sound moves
  cases block_move_cases moves with
  | accepted status phase applied => exact view.push_sound sound applied
  | rejected status phase applied => exact view.push_sound sound applied
  | committed found phase through =>
      exact view.through_sound sound (fun _ _ => commit_footing) through
  | destroyed found phase through =>
      exact view.through_sound sound (fun _ _ => destroy_footing) through
  | _ => exact sound

/-- The object of a key once every rewind is gone, with what was committed on it. A block
ends over objects of this kind only. -/
structure Closed (cryptoShorthash : CryptoShorthash) (base : Option StorageObject)
    (committed : Multiset StorageDelta) (object : RevertableObject) : Prop where
  kempt : Kempt base
  accounts : ∃ opening agreement, opening.base = base ∧
    Accounts cryptoShorthash opening 0 committed agreement object

theorem block_accounts (rested : Rested view globalContext.stateDb)
    (run : Run (MovesBlock cryptoShorthash library store programs) (.start globalContext) moves
      block) (key : AddressAndKey) :
    ∃ opening agreement, opening.base = store.getCommittedValue key globalContext.stateDb ∧
      Kempt opening.base ∧ Accounts cryptoShorthash opening ↑(Rewinds.on key block.held)
        (deltasOn key block.books.committed) agreement
        (view.objects block.globalContext.stateDb key) := by
  choose openings base kempt start using rested.opened
  have kept : BlockKept view.toObjectStore openings block := run_block_kept openings start run
  obtain ⟨agreement, accounts⟩ := kept key
  exact ⟨openings key, agreement, base key, kempt key, accounts⟩

theorem quiescent_closed (rested : Rested view globalContext.stateDb)
    (run : Run (MovesBlock cryptoShorthash library store programs) (.start globalContext) moves
      block) (quiescent : block.Quiescent) (key : AddressAndKey) :
    Closed cryptoShorthash (store.getCommittedValue key globalContext.stateDb)
      (deltasOn key block.books.committed) (view.objects block.globalContext.stateDb key) := by
  obtain ⟨opening, agreement, base, kempt, accounts⟩ := block_accounts rested run key
  have empty : block.held = [] := List.map_eq_nil_iff.mpr quiescent.1
  rw [empty] at accounts
  exact ⟨base ▸ kempt, opening, agreement, base, accounts⟩

/-! ## From one block to the next -/

section Objects

variable {base : Option StorageObject} {committed : Multiset StorageDelta}
  {object changed resumed : RevertableObject}

def StartsOver (cryptoShorthash : CryptoShorthash) (object : RevertableObject) : Prop :=
  ∃ opening : Opening, opening.base = object.getCommittedObject ∧ Kempt opening.base ∧
    Accounts cryptoShorthash opening 0 0 .undecided object

theorem resumes_starts_over (starts : StartsOver cryptoShorthash object)
    (resumes : Resumes object resumed) : StartsOver cryptoShorthash resumed := by
  obtain ⟨opening, base, kempt, accounts⟩ := starts
  cases resumes with
  | same => exact ⟨opening, base, kempt, accounts⟩
  | reloaded =>
      refine ⟨.onBase object.getCommittedObject, ?_, ?_, (round_start_over _ _).accounts⟩
      · cases object.getCommittedObject <;> rfl
      · exact base ▸ kempt

theorem closed_untouched (closed : Closed cryptoShorthash base 0 object) :
    StartsOver cryptoShorthash object := by
  obtain ⟨kempt, opening, agreement, rfl, accounts⟩ := closed
  have undecided : agreement = .undecided := by
    cases valued : agreement.value? with
    | none =>
        cases agreement with
        | undecided => rfl
        | tentative value count => cases valued
        | decided value => cases valued
    | some value =>
        obtain ⟨delta, member, _⟩ := value_backed accounts valued
        exact absurd member (Multiset.notMem_zero delta)
  subst undecided
  exact ⟨opening, accounts.booked.committedBase.symm, kempt, accounts⟩

theorem closed_committed (closed : Closed cryptoShorthash base committed object)
    (round : object.commitRound = .ok changed) : StartsOver cryptoShorthash changed := by
  obtain ⟨kempt, opening, agreement, rfl, accounts⟩ := closed
  have solvent := accounts.solvent
  rw [live_none] at solvent
  have settles := commit_round_settles accounts
  rw [round] at settles
  obtain ⟨next, base, started⟩ := commit_round_start accounts round
  exact ⟨next, base, base ▸ settle_kempt kempt solvent settles.symm, started.accounts⟩

theorem closed_rewound (closed : Closed cryptoShorthash base committed object) :
    StartsOver cryptoShorthash object.rewindRound := by
  obtain ⟨kempt, opening, agreement, rfl, accounts⟩ := closed
  exact ⟨.onBase opening.base, accounts.booked.committedBase.symm, kempt,
    (rewind_round_start accounts).accounts⟩

/-- The object of a closed ledger still shows what the block started from. -/
theorem closed_base (closed : Closed cryptoShorthash base committed object) :
    object.getCommittedObject = base := by
  obtain ⟨_, opening, agreement, rfl, accounts⟩ := closed
  exact accounts.booked.committedBase

end Objects

theorem rested_of_starts_over (sound : view.Sound after)
    (starts : ∀ key, StartsOver cryptoShorthash (view.objects after key)) : Rested view after where
  sound := sound
  opened key := by
    rw [view.committed sound key]
    exact starts key

/-- A block may end over any keys that cover what was committed. -/
theorem covered_commit_rested (rested : Rested view globalContext.stateDb)
    (run : Run (MovesBlock cryptoShorthash library store programs) (.start globalContext) moves
      block) (quiescent : block.Quiescent) (distinct : keys.Nodup)
    (covers : ∀ key, key ∉ keys → deltasOn key block.books.committed = 0)
    (returned : store.commitModifications newKey keys block.globalContext.stateDb = .ok after) :
    Rested view after := by
  obtain ⟨sound, ends⟩ := view.commit (run_sound rested.sound run) distinct returned
  apply rested_of_starts_over sound
  intro key
  have closed := quiescent_closed rested run quiescent key
  by_cases listed : key ∈ keys
  · obtain ⟨changed, round, resumes⟩ := ends.visited key listed
    exact resumes_starts_over (closed_committed closed round) resumes
  · rw [covers key listed] at closed
    exact resumes_starts_over (closed_untouched closed) (ends.left key listed)

theorem commit_rested (rested : Rested view globalContext.stateDb)
    (run : Run (MovesBlock cryptoShorthash library store programs) (.start globalContext) moves
      block) (quiescent : block.Quiescent) (logged : keys.Perm block.modifiedKeys)
    (returned : store.commitModifications newKey keys block.globalContext.stateDb = .ok after) :
    Rested view after :=
  covered_commit_rested rested run quiescent (logged.nodup_iff.mpr (run_logs_once run))
    (fun _ listed => unlogged_untouched run fun member => listed (logged.mem_iff.mpr member))
    returned

theorem covered_rewind_rested (rested : Rested view globalContext.stateDb)
    (run : Run (MovesBlock cryptoShorthash library store programs) (.start globalContext) moves
      block) (quiescent : block.Quiescent) (distinct : keys.Nodup)
    (covers : ∀ key, key ∉ keys → deltasOn key block.books.committed = 0)
    (returned : store.rewindModifications newKey keys block.globalContext.stateDb = .ok after) :
    Rested view after ∧
      ∀ key, store.getCommittedValue key after =
        store.getCommittedValue key globalContext.stateDb := by
  obtain ⟨sound, ends⟩ := view.rewind (run_sound rested.sound run) distinct returned
  constructor
  · apply rested_of_starts_over sound
    intro key
    have closed := quiescent_closed rested run quiescent key
    by_cases listed : key ∈ keys
    · obtain ⟨changed, round, resumes⟩ := ends.visited key listed
      cases round
      exact resumes_starts_over (closed_rewound closed) resumes
    · rw [covers key listed] at closed
      exact resumes_starts_over (closed_untouched closed) (ends.left key listed)
  · intro key
    have base := closed_base (quiescent_closed rested run quiescent key)
    rw [view.committed sound key, ← base]
    by_cases listed : key ∈ keys
    · obtain ⟨changed, round, resumes⟩ := ends.visited key listed
      cases round
      exact (resumes_committed resumes).trans rfl
    · exact resumes_committed (ends.left key listed)

theorem rewind_rested (rested : Rested view globalContext.stateDb)
    (run : Run (MovesBlock cryptoShorthash library store programs) (.start globalContext) moves
      block) (quiescent : block.Quiescent) (logged : keys.Perm block.modifiedKeys)
    (returned : store.rewindModifications newKey keys block.globalContext.stateDb = .ok after) :
    Rested view after ∧
      ∀ key, store.getCommittedValue key after =
        store.getCommittedValue key globalContext.stateDb :=
  covered_rewind_rested rested run quiescent (logged.nodup_iff.mpr (run_logs_once run))
    (fun _ listed => unlogged_untouched run fun member => listed (logged.mem_iff.mpr member))
    returned

/-- What a committed block leaves under a key: the settled object if the block ended over
the key, and what was there otherwise. -/
theorem covered_commit_settles (rested : Rested view globalContext.stateDb)
    (run : Run (MovesBlock cryptoShorthash library store programs) (.start globalContext) moves
      block) (quiescent : block.Quiescent) (distinct : keys.Nodup)
    (returned : store.commitModifications newKey keys block.globalContext.stateDb = .ok after)
    (key : AddressAndKey) :
    (key ∈ keys ∧
      (view.objects block.globalContext.stateDb key).commitRound.map
          RevertableObject.getCommittedObject = .ok (store.getCommittedValue key after)) ∨
    (key ∉ keys ∧
      store.getCommittedValue key after = store.getCommittedValue key globalContext.stateDb) := by
  obtain ⟨sound, ends⟩ := view.commit (run_sound rested.sound run) distinct returned
  rw [view.committed sound key]
  by_cases listed : key ∈ keys
  · left
    obtain ⟨changed, round, resumes⟩ := ends.visited key listed
    refine ⟨listed, ?_⟩
    rw [round, resumes_committed resumes]
    rfl
  · right
    refine ⟨listed, ?_⟩
    rw [resumes_committed (ends.left key listed)]
    exact closed_base (quiescent_closed rested run quiescent key)

theorem commit_settles (rested : Rested view globalContext.stateDb)
    (run : Run (MovesBlock cryptoShorthash library store programs) (.start globalContext) moves
      block) (quiescent : block.Quiescent) (logged : keys.Perm block.modifiedKeys)
    (returned : store.commitModifications newKey keys block.globalContext.stateDb = .ok after)
    (key : AddressAndKey) :
    (key ∈ block.modifiedKeys ∧
      (view.objects block.globalContext.stateDb key).commitRound.map
          RevertableObject.getCommittedObject = .ok (store.getCommittedValue key after)) ∨
    (key ∉ block.modifiedKeys ∧
      store.getCommittedValue key after = store.getCommittedValue key globalContext.stateDb) := by
  rw [← logged.mem_iff]
  exact covered_commit_settles rested run quiescent (logged.nodup_iff.mpr (run_logs_once run))
    returned key

end Block

/-! ## Chains of blocks -/

section Chain

variable {cryptoShorthash : CryptoShorthash} {library : ContractLibrary} {Tx Database : Type}
  [DecidableEq Tx] {store : StateStore Database} {view : SettlingStore cryptoShorthash store}
  {before after : GlobalContext Database}

theorem ends_block_rested (rested : Rested view before.stateDb)
    (ends : EndsBlock cryptoShorthash library Tx store before after) :
    Rested view after.stateDb := by
  cases ends with
  | finished run quiescent logged contracts modifications =>
      exact commit_rested rested run quiescent logged modifications
  | undone run quiescent logged modifications =>
      exact (rewind_rested rested run quiescent logged modifications).1

theorem chain_rested (rested : Rested view before.stateDb)
    (chain : Relation.ReflTransGen (EndsBlock cryptoShorthash library Tx store) before after) :
    Rested view after.stateDb := by
  induction chain with
  | refl => exact rested
  | tail _ ends induction => exact ends_block_rested induction ends

theorem rested_empty {db : Database} (sound : view.Sound db)
    (empty : ∀ key, view.objects db key = .fresh) : Rested view db := by
  apply rested_of_starts_over sound
  intro key
  rw [empty key]
  exact ⟨.onBase none, rfl, kempt_none, (round_start_over _ none).accounts⟩

end Chain

end Scs
