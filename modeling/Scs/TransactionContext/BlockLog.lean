import Scs.TransactionContext.BlockExecution

/-!
# What a block logs

A transaction logs every key that its proxy has cached. Whatever it pushes,
holds or commits is on one of these keys.
-/

namespace Scs

set_option autoImplicit false

open Runs TwoPhase

/-- Committed transactions have logged the keys of their proxies, and deltas stay
within the proxies they come from. -/
structure BlockLogged {Tx : Type*} {Database : Type} (block : BlockExecution Tx Database) :
    Prop where
  remaining : ∀ tx items, (block.contexts tx).status = .returned →
    block.books.phase tx = .pushing items →
      ∀ item ∈ items, item.1 ∈ (block.contexts tx).storageProxy.loggedKeys
  held : ∀ entry ∈ block.books.held, (block.contexts entry.1).status = .returned ∧
    entry.2.1 ∈ (block.contexts entry.1).storageProxy.loggedKeys
  passed : ∀ tx, block.books.phase tx = .committing → (block.contexts tx).status = .returned ∧
    ∀ key ∈ (block.contexts tx).storageProxy.loggedKeys, key ∈ block.modifiedKeys
  committed : ∀ item ∈ block.books.committed, item.1 ∈ block.modifiedKeys

section Logged

variable {cryptoShorthash : CryptoShorthash} {library : ContractLibrary} {Tx : Type*}
  {Database : Type} [DecidableEq Tx] {store : StateStore Database} {programs : Tx → Program}
  {block next : BlockExecution Tx Database} {move : BlockMove Tx}

omit [DecidableEq Tx] in
theorem block_logged_start (globalContext : GlobalContext Database) :
    BlockLogged (.start globalContext : BlockExecution Tx Database) where
  remaining tx items impossible := by cases impossible
  held entry member := absurd member List.not_mem_nil
  passed tx impossible := by cases impossible
  committed item member := absurd member (Multiset.notMem_zero item)

theorem call_logged (logged : BlockLogged block) {tx : Tx}
    (running : (block.contexts tx).status = .running) (context : TransactionContext)
    {phase : Phase (AddressAndKey × StorageDelta)} (undecided : phase ≠ .committing)
    (items : ∀ remaining, context.status = .returned → phase = .pushing remaining →
      ∀ item ∈ remaining, item.1 ∈ context.storageProxy.loggedKeys) :
    BlockLogged
      { block with
        contexts := Function.update block.contexts tx context
        books := { block.books with phase := Function.update block.books.phase tx phase } } where
  remaining other remaining status pushing := by
    by_cases same : other = tx
    · subst same
      simp only [Function.update_self] at status pushing ⊢
      exact items remaining status pushing
    · simp only [Function.update_of_ne same] at status pushing ⊢
      exact logged.remaining other remaining status pushing
  held entry member := by
    obtain ⟨status, cached⟩ := logged.held entry member
    have apart : entry.1 ≠ tx := by
      intro same
      rw [same, running] at status
      cases status
    simp only [Function.update_of_ne apart]
    exact ⟨status, cached⟩
  passed other phased := by
    by_cases same : other = tx
    · subst same
      simp only [Function.update_self] at phased
      exact absurd phased undecided
    · simp only [Function.update_of_ne same] at phased ⊢
      exact logged.passed other phased
  committed := logged.committed

/-- A new phase that is neither pushing nor committing. -/
theorem refuse_logged (logged : BlockLogged block) (tx : Tx) :
    BlockLogged { block with books := block.books.refuse tx } where
  remaining other remaining status pushing := by
    by_cases same : other = tx
    · subst same
      simp only [Books.refuse, Function.update_self] at pushing
      cases pushing
    · simp only [Books.refuse, Function.update_of_ne same] at pushing
      exact logged.remaining other remaining status pushing
  held := logged.held
  passed other phased := by
    by_cases same : other = tx
    · subst same
      simp only [Books.refuse, Function.update_self] at phased
      cases phased
    · simp only [Books.refuse, Function.update_of_ne same] at phased
      exact logged.passed other phased
  committed := logged.committed

theorem accept_logged (logged : BlockLogged block) {tx : Tx} {key : AddressAndKey}
    {delta : StorageDelta} {rest : List (AddressAndKey × StorageDelta)}
    (status : (block.contexts tx).status = .returned)
    (phase : block.books.phase tx = .pushing ((key, delta) :: rest)) (rewind : DeltaRewind) :
    BlockLogged { block with books := block.books.accept tx (key, rewind) rest } where
  remaining other remaining returned pushing := by
    by_cases same : other = tx
    · subst same
      simp only [Books.accept, Function.update_self] at pushing
      cases pushing
      intro item member
      exact logged.remaining other _ status phase item (List.mem_cons_of_mem _ member)
    · simp only [Books.accept, Function.update_of_ne same] at pushing
      exact logged.remaining other remaining returned pushing
  held entry member := by
    rcases List.mem_cons.mp member with rfl | before
    · exact ⟨status, logged.remaining tx _ status phase _ List.mem_cons_self⟩
    · exact logged.held entry before
  passed other phased := by
    by_cases same : other = tx
    · subst same
      simp only [Books.accept, Function.update_self] at phased
      cases phased
    · simp only [Books.accept, Function.update_of_ne same] at phased
      exact logged.passed other phased
  committed := logged.committed

theorem pass_logged (logged : BlockLogged block) {tx : Tx}
    (status : (block.contexts tx).status = .returned) (closures : Tx → List ContractClosure) :
    BlockLogged
      { block with
        modifiedKeys := block.modifiedKeys ∪ (block.contexts tx).storageProxy.loggedKeys
        books := block.books.decide tx
        closures := closures } where
  remaining other remaining returned pushing := by
    by_cases same : other = tx
    · subst same
      simp only [Books.decide, Function.update_self] at pushing
      cases pushing
    · simp only [Books.decide, Function.update_of_ne same] at pushing
      exact logged.remaining other remaining returned pushing
  held := logged.held
  passed other phased := by
    by_cases same : other = tx
    · subst same
      refine ⟨status, fun key cached => ?_⟩
      exact List.mem_union_iff.mpr (.inr cached)
    · simp only [Books.decide, Function.update_of_ne same] at phased
      obtain ⟨returned, keys⟩ := logged.passed other phased
      refine ⟨returned, fun key cached => ?_⟩
      exact List.mem_union_iff.mpr (.inl (keys key cached))
  committed item member := List.mem_union_iff.mpr (.inl (logged.committed item member))

omit [DecidableEq Tx] in
theorem commit_logged (logged : BlockLogged block) {position : Nat} {tx : Tx}
    {key : AddressAndKey} {rewind : DeltaRewind}
    (found : block.books.held[position]? = some (tx, key, rewind))
    (phase : block.books.phase tx = .committing) :
    BlockLogged { block with books := block.books.commitAt position (key, rewind.delta) } where
  remaining := logged.remaining
  held entry member := logged.held entry (List.mem_of_mem_eraseIdx member)
  passed := logged.passed
  committed item member := by
    rcases Multiset.mem_cons.mp member with rfl | before
    · obtain ⟨_, cached⟩ := logged.held _ (List.mem_of_getElem? found)
      exact (logged.passed tx phase).2 key cached
    · exact logged.committed item before

omit [DecidableEq Tx] in
theorem destroy_logged (logged : BlockLogged block) (position : Nat) :
    BlockLogged { block with books := block.books.destroyAt position } where
  remaining := logged.remaining
  held entry member := logged.held entry (List.mem_of_mem_eraseIdx member)
  passed := logged.passed
  committed := logged.committed

omit [DecidableEq Tx] in
theorem BlockLogged.elsewhere (logged : BlockLogged block) (globalContext : GlobalContext Database)
    (allocated : Fin tlcacheSize → ℕ) (pushedKeys : List AddressAndKey)
    (closures : Tx → List ContractClosure) :
    BlockLogged
      { block with
        globalContext := globalContext
        allocated := allocated
        pushedKeys := pushedKeys
        closures := closures } :=
  ⟨logged.remaining, logged.held, logged.passed, logged.committed⟩

theorem moves_logged (block : BlockExecution Tx Database) (move : BlockMove Tx)
    (next : BlockExecution Tx Database) (logged : BlockLogged block)
    (moves : MovesBlock cryptoShorthash library store programs block move next) :
    BlockLogged next := by
  cases block_move_cases moves with
  | @went tx running status =>
      have undecided : block.books.phase tx ≠ .committing := by
        intro committing
        have stopped := (logged.passed tx committing).1
        rw [running] at stopped
        cases stopped
      have kept := call_logged logged running
        (block.advanced library store programs tx) undecided
        (fun _ stopped => by
          rw [status] at stopped
          cases stopped)
      rw [Function.update_eq_self] at kept
      exact kept
  | @returned tx running status =>
      apply call_logged logged running _
      · intro impossible
        cases impossible
      · rintro _ _ ⟨⟩ item member
        exact StorageProxy.delta_logged member
  | @threw tx what running status =>
      apply call_logged logged running _
      · intro impossible
        cases impossible
      · intro _ _ impossible
        cases impossible
  | accepted status phase applied =>
      exact (accept_logged logged status phase _).elsewhere _ _ _ _
  | @rejected tx _ _ _ _ _ status phase applied =>
      exact (refuse_logged logged tx).elsewhere _ _ _ _
  | @gaveUp tx _ status phase => exact refuse_logged logged tx
  | passed status phase updates => exact pass_logged logged status _
  | committed found phase through => exact (commit_logged logged found phase).elsewhere _ _ _ _
  | closed closures run => exact logged.elsewhere _ _ _ _
  | persisted => exact logged.elsewhere _ _ _ _
  | @destroyed position _ _ _ _ _ found phase through =>
      exact (destroy_logged logged position).elsewhere _ _ _ _

theorem run_logged {globalContext : GlobalContext Database} {moves : List (BlockMove Tx)}
    (run : Run (MovesBlock cryptoShorthash library store programs) (.start globalContext) moves
      block) : BlockLogged block :=
  run_invariant BlockLogged moves_logged (block_logged_start globalContext) run

end Logged

end Scs
