import Scs.Library.Willing
import Scs.Phase.BlockBoundary
import Scs.Sdk.CountedBlock
import Scs.StateDb.SisyphusStateDB
import Scs.TransactionContext.SameLedger
import Scs.TxBlock.UniqueTxSet

/-!
# The end of a Sisyphus block (`phase/phases.cc`)

A transaction that passes logs what it has pushed, delta by delta, under its hash. No
hash passes twice, so the log tells the deltas of a block exactly.
-/

namespace Scs

set_option autoImplicit false

open Ledger Lockstep Runs TwoPhase TypedModificationIndex

/-! ## What a block logs -/

section Logged

variable {Tx SignedTransaction Res Database : Type}

/-- What `log_modified_keys` logs for a transaction that has passed. -/
def BlockExecution.modifications (submissions : Tx → SubmittedTx SignedTransaction Res)
    (block : BlockExecution Tx Database) (tx : Tx) : List IndexedModification :=
  (block.pushes tx).map fun item =>
    { addr := item.1
      txHash := (submissions tx).txHash
      delta := item.2 }

def BlockExecution.logged (submissions : Tx → SubmittedTx SignedTransaction Res)
    (block : BlockExecution Tx Database) : Multiset IndexedModification :=
  promised (block.modifications submissions) block.books.order

def IndexedModification.item (modification : IndexedModification) : AddressAndKey × StorageDelta :=
  (modification.addr, modification.delta)

theorem logged_items (submissions : Tx → SubmittedTx SignedTransaction Res)
    (block : BlockExecution Tx Database) :
    (block.logged submissions).map IndexedModification.item =
      promised block.pushes block.books.order := by
  have item (tx : Tx) : (block.modifications submissions tx).map IndexedModification.item =
      block.pushes tx := by
    rw [BlockExecution.modifications, List.map_map]
    exact List.map_id _
  rw [BlockExecution.logged, promised_map]
  simp only [item]

theorem mem_logged {submissions : Tx → SubmittedTx SignedTransaction Res}
    {block : BlockExecution Tx Database} {modification : IndexedModification} :
    modification ∈ block.logged submissions ↔ ∃ tx ∈ block.books.order,
      (submissions tx).txHash = modification.txHash ∧ modification.item ∈ block.pushes tx := by
  rw [BlockExecution.logged, mem_promised]
  apply exists_congr
  intro tx
  apply and_congr_right
  intro _
  rw [BlockExecution.modifications, List.mem_map]
  constructor
  · rintro ⟨item, pushed, rfl⟩
    exact ⟨rfl, pushed⟩
  · rintro ⟨same, pushed⟩
    refine ⟨modification.item, pushed, ?_⟩
    rw [same]
    rfl

end Logged

/-! ## Every delta is logged once -/

def StorageDelta.place : StorageDelta → ℕ
  | .rawMemoryWrite _ => 0
  | .nonnegativeInt64SetAdd _ => 1
  | .hashSetIncreaseLimit _ => 2
  | .hashSetInsert _ => 3
  | .hashSetClear _ => 4
  | .assetObjectAdd _ => 5
  | _ => 6

def PlacedBefore (place : ℕ) (deltas : List StorageDelta) : Prop :=
  deltas.Nodup ∧ ∀ delta ∈ deltas, delta.place < place

theorem placed_append {earlier later : List StorageDelta} {place : ℕ}
    (before : PlacedBefore place earlier) (distinct : later.Nodup)
    (here : ∀ delta ∈ later, delta.place = place) :
    PlacedBefore (place + 1) (earlier ++ later) := by
  obtain ⟨once, below⟩ := before
  constructor
  · apply List.Nodup.append once distinct
    intro delta first second
    exact absurd (here delta second) (below delta first).ne
  · intro delta member
    rcases List.mem_append.mp member with first | second
    · exact Nat.lt_succ_of_lt (below delta first)
    · rw [here delta second]
      exact Nat.lt_succ_self place

theorem placed_option {Value : Type} {earlier : List StorageDelta} {place : ℕ}
    (before : PlacedBefore place earlier) (value? : Option Value) (make : Value → StorageDelta)
    (here : ∀ value, (make value).place = place) :
    PlacedBefore (place + 1) (earlier ++ (value?.map make).toList) := by
  cases value? with
  | none =>
      apply placed_append before List.nodup_nil
      intro delta impossible
      cases impossible
  | some value =>
      apply placed_append before (List.nodup_singleton _)
      intro delta member
      rw [List.mem_singleton.mp member]
      exact here value

theorem placed_if {earlier : List StorageDelta} {place : ℕ} (before : PlacedBefore place earlier)
    (condition : Prop) [Decidable condition] (delta : StorageDelta) (here : delta.place = place) :
    PlacedBefore (place + 1) (earlier ++ if condition then [delta] else []) := by
  split_ifs
  · apply placed_append before (List.nodup_singleton _)
    intro other member
    rw [List.mem_singleton.mp member]
    exact here
  · apply placed_append before List.nodup_nil
    intro delta impossible
    cases impossible

theorem new_hashes_le {applicator : ProxyApplicator}
    (pushes : (!applicator.isDeleted && applicator.current.isNone) ≠ true) :
    (applicator.newHashes : Multiset HashSetEntry) ≤ inserts ↑applicator.getDeltas := by
  have within : (applicator.newHashes.map makeHashSetInsert).Sublist applicator.getDeltas := by
    unfold ProxyApplicator.getDeltas
    rw [if_neg pushes]
    have last := List.sublist_append_right
      ((applicator.memoryWrite.map makeRawMemoryWrite).toList ++
      (applicator.nnint64Delta.map fun setAdd =>
        makeNonnegativeInt64SetAdd setAdd.setValue setAdd.delta).toList ++
      if applicator.doLimitIncrease then [makeHashSetIncreaseLimit applicator.limitIncrease]
        else []) (applicator.newHashes.map makeHashSetInsert)
    exact ((last.trans (List.sublist_append_left _ _)).trans (List.sublist_append_left _ _)).trans
      (List.sublist_append_left _ _)
  have inserted : inserts ↑(applicator.newHashes.map makeHashSetInsert) =
      (applicator.newHashes : Multiset HashSetEntry) := by
    rw [inserts, Multiset.filterMap_coe, List.filterMap_map]
    exact congrArg _ (List.filterMap_some)
  rw [← inserted]
  exact inserts_mono within.subperm

theorem get_deltas_nodup {applicator : ProxyApplicator}
    (distinct : (inserts ↑applicator.getDeltas).Nodup) : applicator.getDeltas.Nodup := by
  by_cases nothing : (!applicator.isDeleted && applicator.current.isNone) = true
  · unfold ProxyApplicator.getDeltas
    rw [if_pos nothing]
    exact List.nodup_nil
  have hashes : applicator.newHashes.Nodup :=
    Multiset.coe_nodup.mp (Multiset.nodup_of_le (new_hashes_le nothing) distinct)
  have start : PlacedBefore 0 [] := ⟨List.nodup_nil, fun delta impossible => by cases impossible⟩
  have writes := placed_option start applicator.memoryWrite makeRawMemoryWrite fun _ => rfl
  have adds := placed_option writes applicator.nnint64Delta
    (fun setAdd => makeNonnegativeInt64SetAdd setAdd.setValue setAdd.delta) fun _ => rfl
  have limits := placed_if adds (applicator.doLimitIncrease = true)
    (makeHashSetIncreaseLimit applicator.limitIncrease) rfl
  have inserted : PlacedBefore 4 _ := placed_append limits
    (hashes.map fun first second same => StorageDelta.hashSetInsert.inj same) (by
      intro delta member
      obtain ⟨entry, _, rfl⟩ := List.mem_map.mp member
      rfl)
  have clears := placed_option inserted applicator.hsClearThreshold makeHashSetClear fun _ => rfl
  have assets := placed_option clears applicator.delta makeAssetAdd fun _ => rfl
  have whole := placed_if assets (applicator.isDeleted = true) makeDeleteLast rfl
  unfold ProxyApplicator.getDeltas
  rw [if_neg nothing]
  exact whole.1

theorem raw_write_pushed {applicator : ProxyApplicator} {raw : RawMemoryStorage}
    (member : StorageDelta.rawMemoryWrite raw ∈ applicator.getDeltas) :
    applicator.memoryWrite = some raw := by
  unfold ProxyApplicator.getDeltas at member
  split_ifs at member
  all_goals
    simp only [makeRawMemoryWrite, makeNonnegativeInt64SetAdd, makeHashSetIncreaseLimit,
      makeHashSetInsert, makeHashSetClear, makeAssetAdd, makeDeleteLast, List.mem_append,
      Option.mem_toList, Option.map_eq_some_iff, List.mem_map, List.mem_singleton,
      List.not_mem_nil, reduceCtorEq, and_false, exists_false, or_false,
      StorageDelta.rawMemoryWrite.injEq, exists_eq_right] at member
  all_goals exact member

theorem items_nodup {items : Multiset (AddressAndKey × StorageDelta)}
    (distinct : ∀ key, (deltasOn key items).Nodup) : items.Nodup := by
  rw [Multiset.nodup_iff_le]
  intro item twice
  have deltas := deltas_on_mono item.1 twice
  have own : deltasOn item.1 (item ::ₘ item ::ₘ 0) = item.2 ::ₘ item.2 ::ₘ 0 := by
    rw [deltas_on_self, deltas_on_self]
    rfl
  rw [own] at deltas
  exact Multiset.nodup_iff_le.mp (distinct item.1) item.2 deltas

section Block

variable {cryptoShorthash : CryptoShorthash} {library : ContractLibrary}
  {Tx SignedTransaction Res Database : Type} [DecidableEq Tx]
  {store : StateStore Database} {view : SettlingStore cryptoShorthash store}
  {programs : Tx → Program} {submissions : Tx → SubmittedTx SignedTransaction Res}
  {before : GlobalContext Database} {moves : List (BlockMove Tx)}
  {block : BlockExecution Tx Database}

/-- What passed transactions push keeps the rules of every object. -/
theorem quiescent_solvent (rested : Rested view before.stateDb)
    (run : Run (MovesBlock cryptoShorthash library store programs) (.start before) moves block)
    (quiescent : block.Quiescent) (key : AddressAndKey) :
    ∃ opening, Solvent opening (deltasOn key (promised block.pushes block.books.order))
      (deltasOn key block.books.committed) := by
  obtain ⟨_, opening, agreement, _, accounts⟩ := quiescent_closed rested run quiescent key
  have solvent := accounts.solvent
  rw [live_none] at solvent
  rw [← quiescent_committed view.toObjectStore run quiescent]
  exact ⟨opening, solvent⟩

theorem passed_pushes_nodup (rested : Rested view before.stateDb)
    (run : Run (MovesBlock cryptoShorthash library store programs) (.start before) moves block)
    (quiescent : block.Quiescent) {tx : Tx} (listed : tx ∈ block.books.order) :
    (block.pushes tx).Nodup := by
  rw [← Multiset.coe_nodup]
  apply items_nodup
  intro key
  obtain ⟨opening, solvent⟩ := quiescent_solvent rested run quiescent key
  have within := inserts_mono (deltas_on_mono key (le_promised block.pushes listed))
  have distinct := Multiset.nodup_of_le within solvent.distinct
  rw [passed_pushes run key listed] at distinct ⊢
  exact Multiset.coe_nodup.mpr (get_deltas_nodup distinct)

theorem logged_nodup (rested : Rested view before.stateDb)
    (run : Run (MovesBlock cryptoShorthash library store programs) (.start before) moves block)
    (quiescent : block.Quiescent)
    (distinct : (block.books.order.map fun tx => (submissions tx).txHash).Nodup) :
    (block.logged submissions).Nodup := by
  apply promised_nodup
  · intro tx listed
    apply (passed_pushes_nodup rested run quiescent listed).map
    intro first second same
    have addr := congrArg IndexedModification.addr same
    have delta := congrArg IndexedModification.delta same
    exact Prod.ext addr delta
  · refine (List.pairwise_map.mp distinct).imp ?_
    intro tx other different modification own there
    obtain ⟨_, _, rfl⟩ := List.mem_map.mp own
    obtain ⟨_, _, same⟩ := List.mem_map.mp there
    exact different (congrArg IndexedModification.txHash same).symm

theorem logged_implemented (rested : Rested view before.stateDb)
    (run : Run (MovesBlock cryptoShorthash library store programs) (.start before) moves block)
    (quiescent : block.Quiescent) :
    ∀ modification ∈ block.logged submissions, modification.delta.implemented = true := by
  intro modification member
  obtain ⟨opening, solvent⟩ := quiescent_solvent rested run quiescent modification.addr
  apply solvent.implemented
  rw [← logged_items submissions, mem_deltas_on]
  exact Multiset.mem_map_of_mem IndexedModification.item member

theorem passed_raw_write
    (run : Run (MovesBlock cryptoShorthash library store programs) (.start before) moves block)
    {key : AddressAndKey} {tx : Tx} (listed : tx ∈ block.books.order)
    {first second : RawMemoryStorage}
    (firstPushed : (key, .rawMemoryWrite first) ∈ block.pushes tx)
    (secondPushed : (key, .rawMemoryWrite second) ∈ block.pushes tx) : first = second := by
  have written {raw : RawMemoryStorage} (pushed : (key, .rawMemoryWrite raw) ∈ block.pushes tx) :
      ((block.contexts tx).storageProxy.localOf
        (fun key => store.getCommittedValue key before.stateDb) key).memoryWrite = some raw := by
    apply raw_write_pushed
    rw [← Multiset.mem_coe, ← passed_pushes run key listed, mem_deltas_on]
    exact pushed
  exact Option.some_inj.mp ((written firstPushed).symm.trans (written secondPushed))

/-- Writes that hash alike are still logged apart: a transaction writes a key once, and its
hash is in the key of the log. -/
theorem logged_keyed (rested : Rested view before.stateDb)
    (run : Run (MovesBlock cryptoShorthash library store programs) (.start before) moves block)
    (quiescent : block.Quiescent)
    (distinct : (block.books.order.map fun tx => (submissions tx).txHash).Nodup)
    (hashRaw : HashRaw) : Keyed hashRaw (block.logged submissions) where
  implemented := logged_implemented rested run quiescent
  apart left leftMember right rightMember same := by
    have leftImplemented := logged_implemented rested run quiescent left leftMember
    have rightImplemented := logged_implemented rested run quiescent right rightMember
    obtain ⟨addr, _, _, txHash⟩ := key_fields leftImplemented rightImplemented same
    apply key_injective leftImplemented rightImplemented _ same
    intro first second leftWrite rightWrite _
    obtain ⟨tx, listed, own, leftPushed⟩ := mem_logged.mp leftMember
    obtain ⟨other, otherListed, otherOwn, rightPushed⟩ := mem_logged.mp rightMember
    have one : other = tx := by
      apply List.inj_on_of_nodup_map distinct otherListed listed
      rw [own, otherOwn, txHash]
    subst one
    rw [IndexedModification.item, leftWrite, addr] at leftPushed
    rw [IndexedModification.item, rightWrite] at rightPushed
    exact passed_raw_write run listed leftPushed rightPushed

/-! ## The keys that were modified -/

/-- Rewinds are held, and deltas are committed, on pushed keys only. -/
structure PushedOnly (block : BlockExecution Tx Database) : Prop where
  held : ∀ entry ∈ block.books.held, entry.2.1 ∈ block.pushedKeys
  committed : ∀ item ∈ block.books.committed, item.1 ∈ block.pushedKeys

theorem moves_pushed_only (block : BlockExecution Tx Database) (move : BlockMove Tx)
    (next : BlockExecution Tx Database) (pushed : PushedOnly block)
    (moves : MovesBlock cryptoShorthash library store programs block move next) :
    PushedOnly next := by
  cases block_move_cases moves with
  | accepted status phase applied =>
      constructor
      · intro entry member
        rcases List.mem_cons.mp member with rfl | member
        · exact List.mem_cons_self
        · exact List.mem_cons_of_mem _ (pushed.held entry member)
      · intro item member
        exact List.mem_cons_of_mem _ (pushed.committed item member)
  | rejected status phase applied =>
      constructor
      · intro entry member
        exact List.mem_cons_of_mem _ (pushed.held entry member)
      · intro item member
        exact List.mem_cons_of_mem _ (pushed.committed item member)
  | committed found phase through =>
      constructor
      · intro entry member
        exact pushed.held entry (List.mem_of_mem_eraseIdx member)
      · intro item member
        rcases Multiset.mem_cons.mp member with rfl | member
        · exact pushed.held _ (List.mem_of_getElem? found)
        · exact pushed.committed item member
  | destroyed found phase through =>
      exact ⟨fun entry member => pushed.held entry (List.mem_of_mem_eraseIdx member),
        pushed.committed⟩
  | _ => exact ⟨pushed.held, pushed.committed⟩

theorem run_pushed_only
    (run : Run (MovesBlock cryptoShorthash library store programs) (.start before) moves block) :
    PushedOnly block := by
  apply run_invariant PushedOnly moves_pushed_only _ run
  constructor
  · intro entry impossible
    cases impossible
  · intro item impossible
    exact absurd impossible (Multiset.notMem_zero item)

/-- A trie ends a block over modified keys without a throw. -/
theorem modified_ends_return (lens : TrieStore cryptoShorthash store)
    (rested : Rested lens.settlingStore before.stateDb)
    (run : Run (MovesBlock cryptoShorthash library store programs) (.start before) moves block)
    (quiescent : block.Quiescent) {keys : List AddressAndKey} (distinct : keys.Nodup)
    (modified : ∀ key ∈ keys, ∃ item ∈ block.books.committed, item.1 = key) (newKey : HashKey) :
    (∃ after, store.commitModifications newKey keys block.globalContext.stateDb = .ok after) ∧
      ∃ after, store.rewindModifications newKey keys block.globalContext.stateDb = .ok after := by
  have stored : ∀ key ∈ keys, lens.trie block.globalContext.stateDb key ≠ none := by
    intro key member
    obtain ⟨item, committed, rfl⟩ := modified key member
    exact (run_entries lens run item.1).mpr (.inr ((run_pushed_only run).committed item committed))
  have ends := ends_return_iff lens rested run quiescent newKey distinct
  exact ⟨ends.1.mpr stored, ends.2.mpr stored⟩

end Block

end Scs
