import Scs.TransactionContext.BlockExecution
import Scs.TxBlock.TxSet

/-!
# The transaction set of a Sisyphus block (`tx_block/unique_tx_set.cc`)

A transaction passes the threshold only if no transaction with its hash has passed
before it.
-/

namespace Scs

set_option autoImplicit false

open Runs TwoPhase

/-! ## The set -/

structure UniqueTxSet (SignedTransaction Res : Type) where
  txs : TxTrie SignedTransaction Res
  txsMerged : Bool

section Set

variable {SignedTransaction Res : Type}

/-- `UniqueInsertFn::value_insert`: the first entry stays, and one without results
throws. -/
def uniqueValueInsert (mainEntry otherEntry : TxSetEntry SignedTransaction Res) :
    Option (TxSetEntry SignedTransaction Res) :=
  let entry := if mainEntry.nondeterministicResults.length = 0 then otherEntry else mainEntry
  if entry.nondeterministicResults.length = 0 then none else some entry

namespace UniqueTxSet

def empty : UniqueTxSet SignedTransaction Res where
  txs := ∅
  txsMerged := false

/-- `insert` of the trie tells whether the key was new. -/
def tryAddTransaction [Inhabited SignedTransaction] (hash : Hash) (tx : SignedTransaction)
    (nres : Res) (set : UniqueTxSet SignedTransaction Res) :
    Option (Bool × UniqueTxSet SignedTransaction Res) :=
  if set.txsMerged then none
  else do
    let entry ← uniqueValueInsert ((set.txs.lookup hash).getD newValue)
      { tx := tx
        nondeterministicResults := [nres] }
    some ((set.txs.lookup hash).isNone, { set with txs := set.txs.insert hash entry })

/-- `finalize`; a set that was finalized before throws. -/
def finalize (set : UniqueTxSet SignedTransaction Res) :
    Option (UniqueTxSet SignedTransaction Res) :=
  if set.txsMerged then none else some { set with txsMerged := true }

def serializeBlock (set : UniqueTxSet SignedTransaction Res) :
    Option (Block SignedTransaction Res) :=
  if set.txsMerged then some { transactions := set.txs.entries.map Sigma.snd } else none

end UniqueTxSet

variable [Inhabited SignedTransaction] {set after : UniqueTxSet SignedTransaction Res} {hash : Hash}
  {tx : SignedTransaction} {nres : Res}

theorem try_add_accepted (added : set.tryAddTransaction hash tx nres = some (true, after)) :
    set.txs.lookup hash = none ∧
      after = { set with
        txs := set.txs.insert hash { tx := tx, nondeterministicResults := [nres] } } := by
  unfold UniqueTxSet.tryAddTransaction at added
  split_ifs at added
  obtain ⟨entry, inserted, same⟩ := Option.bind_eq_some_iff.mp added
  simp only [Option.some.injEq, Prod.mk.injEq] at same
  obtain ⟨fresh, rfl⟩ := same
  have missing : set.txs.lookup hash = none := Option.isNone_iff_eq_none.mp fresh
  rw [missing] at inserted
  cases inserted
  exact ⟨missing, rfl⟩

theorem try_add_fresh (unmerged : set.txsMerged = false) (fresh : set.txs.lookup hash = none) :
    set.tryAddTransaction hash tx nres = some (true, { set with
      txs := set.txs.insert hash { tx := tx, nondeterministicResults := [nres] } }) := by
  unfold UniqueTxSet.tryAddTransaction
  rw [unmerged, fresh]
  rfl

theorem try_add_refused (results : ∀ entry, set.txs.lookup hash = some entry →
      entry.nondeterministicResults.length ≠ 0)
    (added : set.tryAddTransaction hash tx nres = some (false, after)) :
    after.txsMerged = set.txsMerged ∧ ∀ key, after.txs.lookup key = set.txs.lookup key := by
  unfold UniqueTxSet.tryAddTransaction at added
  split_ifs at added
  obtain ⟨entry, inserted, same⟩ := Option.bind_eq_some_iff.mp added
  simp only [Option.some.injEq, Prod.mk.injEq] at same
  obtain ⟨taken, rfl⟩ := same
  refine ⟨rfl, fun key => ?_⟩
  by_cases here : key = hash
  · subst here
    cases found : set.txs.lookup key with
    | none =>
        rw [found] at taken
        cases taken
    | some held =>
        have some_results := results held found
        rw [found, Option.getD_some, uniqueValueInsert, if_neg some_results,
          if_neg some_results] at inserted
        cases inserted
        exact AList.lookup_insert _
  · exact AList.lookup_insert_ne here

end Set

/-! ## The set in a block -/

/-- What `execute` is called with, and the results that it has recorded. -/
structure SubmittedTx (SignedTransaction Res : Type) where
  txHash : Hash
  tx : SignedTransaction
  results : Res

structure SisyphusExecution (Tx SignedTransaction Res Database : Type) where
  execution : BlockExecution Tx Database
  txSet : UniqueTxSet SignedTransaction Res

def SisyphusExecution.start {Tx SignedTransaction Res Database : Type}
    (globalContext : GlobalContext Database) :
    SisyphusExecution Tx SignedTransaction Res Database where
  execution := .start globalContext
  txSet := .empty

section Moves

variable (cryptoShorthash : CryptoShorthash) (library : ContractLibrary)
  {Tx SignedTransaction Res Database : Type} [DecidableEq Tx] [Inhabited SignedTransaction]
  (store : StateStore Database) (programs : Tx → Program)
  (submissions : Tx → SubmittedTx SignedTransaction Res)

/-- `try_add_transaction` decides whether a transaction passes the threshold. -/
inductive MovesSisyphus : SisyphusExecution Tx SignedTransaction Res Database → BlockMove Tx →
    SisyphusExecution Tx SignedTransaction Res Database → Prop
  | passed {block : SisyphusExecution Tx SignedTransaction Res Database} {tx : Tx}
      {next : BlockExecution Tx Database} {txSet : UniqueTxSet SignedTransaction Res}
      (moves : MovesBlock cryptoShorthash library store programs block.execution (.pass tx) next)
      (added : block.txSet.tryAddTransaction (submissions tx).txHash (submissions tx).tx
        (submissions tx).results = some (true, txSet)) :
      MovesSisyphus block (.pass tx) { execution := next, txSet := txSet }
  | refused {block : SisyphusExecution Tx SignedTransaction Res Database} {tx : Tx}
      {next : BlockExecution Tx Database} {txSet : UniqueTxSet SignedTransaction Res}
      (moves : MovesBlock cryptoShorthash library store programs block.execution (.giveUp tx) next)
      (added : block.txSet.tryAddTransaction (submissions tx).txHash (submissions tx).tx
        (submissions tx).results = some (false, txSet)) :
      MovesSisyphus block (.giveUp tx) { execution := next, txSet := txSet }
  | moved {block : SisyphusExecution Tx SignedTransaction Res Database} {move : BlockMove Tx}
      {next : BlockExecution Tx Database} (other : ∀ tx, move ≠ .pass tx)
      (moves : MovesBlock cryptoShorthash library store programs block.execution move next) :
      MovesSisyphus block move { block with execution := next }

def SubmittedTx.entry {SignedTransaction Res : Type}
    (submission : SubmittedTx SignedTransaction Res) : TxSetEntry SignedTransaction Res where
  tx := submission.tx
  nondeterministicResults := [submission.results]

variable {cryptoShorthash library store programs submissions}
  {before : GlobalContext Database} {moves : List (BlockMove Tx)}
  {block next : SisyphusExecution Tx SignedTransaction Res Database} {move : BlockMove Tx}

/-- The set holds the passed transactions, whose hashes are distinct. A second transaction
of the same hash is refused at the threshold. -/
structure PassedOnce (submissions : Tx → SubmittedTx SignedTransaction Res)
    (block : SisyphusExecution Tx SignedTransaction Res Database) : Prop where
  unmerged : block.txSet.txsMerged = false
  distinct : (block.execution.books.order.map fun tx => (submissions tx).txHash).Nodup
  held : ∀ key entry, block.txSet.txs.lookup key = some entry ↔
    ∃ tx ∈ block.execution.books.order,
      (submissions tx).txHash = key ∧ (submissions tx).entry = entry

omit [Inhabited SignedTransaction] in
theorem order_moves {execution after : BlockExecution Tx Database}
    (other : ∀ tx, move ≠ .pass tx)
    (moves : MovesBlock cryptoShorthash library store programs execution move after) :
    after.books.order = execution.books.order := by
  cases block_move_cases moves with
  | passed status phase updates => exact absurd rfl (other _)
  | _ => rfl

theorem moves_unique (block : SisyphusExecution Tx SignedTransaction Res Database)
    (move : BlockMove Tx) (next : SisyphusExecution Tx SignedTransaction Res Database)
    (unique : PassedOnce submissions block)
    (moves : MovesSisyphus cryptoShorthash library store programs submissions block move next) :
    PassedOnce submissions next := by
  cases moves with
  | @passed tx after txSet moves added =>
      obtain ⟨fresh, rfl⟩ := try_add_accepted added
      have order : after.books.order = block.execution.books.order ++ [tx] := by
        cases block_move_cases moves with
        | passed status phase updates => rfl
      have stranger : ∀ other ∈ block.execution.books.order,
          (submissions other).txHash ≠ (submissions tx).txHash := by
        intro other member same
        have found := (unique.held _ _).mpr ⟨other, member, same, rfl⟩
        rw [fresh] at found
        cases found
      constructor
      · exact unique.unmerged
      · simp only [order, List.map_append, List.map_singleton]
        apply List.Nodup.append unique.distinct (List.nodup_singleton _)
        intro key inside here
        obtain ⟨other, member, same⟩ := List.mem_map.mp inside
        exact stranger other member (same.trans (List.mem_singleton.mp here))
      · intro key entry
        simp only [order, List.mem_append, List.mem_singleton, or_and_right, exists_or,
          exists_eq_left]
        by_cases here : key = (submissions tx).txHash
        · subst here
          rw [AList.lookup_insert, Option.some.injEq]
          constructor
          · exact fun same => .inr ⟨rfl, same⟩
          · rintro (⟨other, member, same, _⟩ | ⟨_, same⟩)
            · exact absurd same (stranger other member)
            · exact same
        · rw [AList.lookup_insert_ne here, unique.held]
          constructor
          · exact .inl
          · rintro (found | ⟨same, _⟩)
            · exact found
            · exact absurd same.symm here
  | @refused tx after txSet moves added =>
      have order := order_moves (fun _ impossible => by cases impossible) moves
      have results : ∀ entry, block.txSet.txs.lookup (submissions tx).txHash = some entry →
          entry.nondeterministicResults.length ≠ 0 := by
        intro entry found
        obtain ⟨other, _, _, rfl⟩ := (unique.held _ _).mp found
        exact Nat.one_ne_zero
      obtain ⟨merged, lookups⟩ := try_add_refused results added
      constructor
      · exact merged.trans unique.unmerged
      · simp only [order]
        exact unique.distinct
      · intro key entry
        simp only [order, lookups key]
        exact unique.held key entry
  | moved other moves =>
      have order := order_moves other moves
      constructor
      · exact unique.unmerged
      · simp only [order]
        exact unique.distinct
      · simp only [order]
        exact unique.held

theorem run_unique
    (run : Run (MovesSisyphus cryptoShorthash library store programs submissions) (.start before)
      moves block) : PassedOnce submissions block := by
  apply run_invariant (PassedOnce submissions) moves_unique _ run
  constructor
  · rfl
  · exact List.nodup_nil
  · intro key entry
    constructor
    · intro impossible
      cases impossible
    · rintro ⟨_, impossible, _⟩
      cases impossible

theorem moves_execution
    (moves : MovesSisyphus cryptoShorthash library store programs submissions block move next) :
    MovesBlock cryptoShorthash library store programs block.execution move next.execution := by
  cases moves with
  | passed moves added => exact moves
  | refused moves added => exact moves
  | moved other moves => exact moves

theorem run_execution
    (run : Run (MovesSisyphus cryptoShorthash library store programs submissions) block moves
      next) :
    Run (MovesBlock cryptoShorthash library store programs) block.execution moves
      next.execution := by
  induction run with
  | nil => exact .nil _
  | cons first _ induction => exact .cons (moves_execution first) induction

omit [DecidableEq Tx] [Inhabited SignedTransaction] in
theorem serialized_unique (unique : PassedOnce submissions block) :
    ∃ merged out, block.txSet.finalize = some merged ∧ merged.serializeBlock = some out ∧
      out.transactions.Perm (block.execution.books.order.map fun tx => (submissions tx).entry) := by
  have listed : (block.txSet.txs.entries).Perm (block.execution.books.order.map fun tx =>
      ⟨(submissions tx).txHash, (submissions tx).entry⟩) := by
    apply (List.perm_ext_iff_of_nodup _ _).mpr
    · intro entry
      rw [← AList.mem_lookup_iff, Option.mem_def, unique.held, List.mem_map]
      apply exists_congr
      intro tx
      apply and_congr_right
      intro _
      rw [Sigma.ext_iff, heq_eq_eq]
    · exact List.Nodup.of_map Sigma.fst block.txSet.txs.keys_nodup
    · apply List.Nodup.of_map Sigma.fst
      rw [List.map_map]
      exact unique.distinct
  refine ⟨{ block.txSet with txsMerged := true }, { transactions := _ }, ?_, rfl, ?_⟩
  · exact if_neg (by rw [unique.unmerged]; exact Bool.false_ne_true)
  · have entries := listed.map Sigma.snd
    rw [List.map_map] at entries
    exact entries

end Moves

end Scs
