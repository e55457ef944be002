import Scs.Library.Threads
import Scs.Xdr.Storage
import Scs.Xdr.Transaction
import Mathlib.Data.List.AList
import Mathlib.Data.Multiset.Bind

/-!
# The transaction set of a block (`tx_block/tx_set.cc`)

All threads add their transactions to one trie, keyed by the hash of the
transaction. `LockableTxSetEntry::lock` adopts a mutex that nobody has locked,
so a thread reads an entry and writes the extended list in two separate steps.
-/

namespace Scs

set_option autoImplicit false

open Runs Threads

section TxSet

variable (Tx Res : Type)

abbrev TxTrie := AList fun _ : Hash => TxSetEntry Tx Res

structure TxSet where
  txs : TxTrie Tx Res
  txsMerged : Bool

/-- The arguments of one `try_add_transaction`; its key is the hash of `tx`. -/
structure AddCall where
  tx : Tx
  nres : Res

variable {Tx Res}

/-- Whether the guard that `lock` returns has locked the mutex: it is built with
`std::adopt_lock`. -/
def lockAcquires : Bool := false

def newValue [Inhabited Tx] : TxSetEntry Tx Res where
  tx := default
  nondeterministicResults := []

/-- `ResultListInsertFn::value_insert`: the new value of the entry, or a throw. -/
def valueInsert [DecidableEq Tx] (mainEntry otherEntry : TxSetEntry Tx Res) :
    Option (TxSetEntry Tx Res) :=
  let tx := if mainEntry.nondeterministicResults.length = 0 then otherEntry.tx else mainEntry.tx
  if otherEntry.nondeterministicResults.length > 0 ∧ tx ≠ otherEntry.tx then none
  else
    some
      { tx := tx
        nondeterministicResults :=
          mainEntry.nondeterministicResults ++ otherEntry.nondeterministicResults }

def AddCall.entry (call : AddCall Tx Res) : TxSetEntry Tx Res where
  tx := call.tx
  nondeterministicResults := [call.nres]

namespace TxSet

def entryAt [Inhabited Tx] (key : Hash) (set : TxSet Tx Res) : TxSetEntry Tx Res :=
  (set.txs.lookup key).getD newValue

def store (key : Hash) (entry : TxSetEntry Tx Res) (set : TxSet Tx Res) : TxSet Tx Res :=
  { set with txs := set.txs.insert key entry }

/-- `finalize`; a set that was finalized before throws. -/
def finalize (set : TxSet Tx Res) : Option (TxSet Tx Res) :=
  if set.txsMerged then none else some { set with txsMerged := true }

def serializeBlock (set : TxSet Tx Res) : Option (Block Tx Res) :=
  if set.txsMerged then some { transactions := set.txs.entries.map Sigma.snd } else none

end TxSet

/-- The set, the calls that were written, and whether a call threw. -/
structure TxSetRound (Tx Res : Type) where
  set : TxSet Tx Res
  written : Multiset (AddCall Tx Res)
  threw : Bool

inductive AddTask (Tx Res : Type) where
  | calling (calls : List (AddCall Tx Res))
  | writing (call : AddCall Tx Res) (read : TxSetEntry Tx Res) (rest : List (AddCall Tx Res))

variable [Inhabited Tx] [DecidableEq Tx]

inductive AddMoves (hashXdr : Tx → Hash) : Threads.Moves (TxSetRound Tx Res) (AddTask Tx Res)
  | returned {round : TxSetRound Tx Res} : AddMoves hashXdr round (.calling []) round 0
  | read {round : TxSetRound Tx Res} {call : AddCall Tx Res} {rest : List (AddCall Tx Res)}
      (open_set : round.set.txsMerged = false) (unlocked : lockAcquires = false) :
      AddMoves hashXdr round (.calling (call :: rest))
        { round with
          set := round.set.store (hashXdr call.tx) (round.set.entryAt (hashXdr call.tx)) }
        {.writing call (round.set.entryAt (hashXdr call.tx)) rest}
  | wrote {round : TxSetRound Tx Res} {call : AddCall Tx Res} {read entry : TxSetEntry Tx Res}
      {rest : List (AddCall Tx Res)} (inserted : valueInsert read call.entry = some entry) :
      AddMoves hashXdr round (.writing call read rest)
        { round with
          set := round.set.store (hashXdr call.tx) entry
          written := call ::ₘ round.written }
        {.calling rest}
  | mismatched {round : TxSetRound Tx Res} {call : AddCall Tx Res} {read : TxSetEntry Tx Res}
      {rest : List (AddCall Tx Res)} (inserted : valueInsert read call.entry = none) :
      AddMoves hashXdr round (.writing call read rest) { round with threw := true } 0
  | locked {round : TxSetRound Tx Res} {call : AddCall Tx Res} {entry : TxSetEntry Tx Res}
      {rest : List (AddCall Tx Res)} (open_set : round.set.txsMerged = false)
      (acquired : lockAcquires = true)
      (inserted : valueInsert (round.set.entryAt (hashXdr call.tx)) call.entry = some entry) :
      AddMoves hashXdr round (.calling (call :: rest))
        { round with
          set := round.set.store (hashXdr call.tx) entry
          written := call ::ₘ round.written }
        {.calling rest}

def txSetPool (threads : Multiset (List (AddCall Tx Res))) :
    Pool (TxSetRound Tx Res) (AddTask Tx Res) where
  shared := { set := { txs := ∅, txsMerged := false }, written := 0, threw := false }
  tasks := threads.map .calling

def addedCalls (threads : Multiset (List (AddCall Tx Res))) : Multiset (AddCall Tx Res) :=
  threads.bind fun calls => ↑calls

/-- Each added transaction has one entry, which lists each added result as often
as it was added. -/
structure Faithful (added : Multiset (AddCall Tx Res)) (block : Block Tx Res) : Prop where
  distinct : (block.transactions.map TxSetEntry.tx).Nodup
  covered : ∀ call ∈ added, ∃ entry ∈ block.transactions, entry.tx = call.tx
  only : ∀ entry ∈ block.transactions, ∃ call ∈ added, call.tx = entry.tx
  results : ∀ entry ∈ block.transactions, (entry.nondeterministicResults : Multiset Res) =
    (added.filter fun call => call.tx = entry.tx).map AddCall.nres

/-! ## Threads that do not meet on an entry -/

def AddTask.pendingHash? (hashXdr : Tx → Hash) : AddTask Tx Res → Option Hash
  | .calling _ => none
  | .writing call _ _ => some (hashXdr call.tx)

def pendingHashes (hashXdr : Tx → Hash) (tasks : Multiset (AddTask Tx Res)) : Multiset Hash :=
  tasks.filterMap (AddTask.pendingHash? hashXdr)

def AddTask.calls : AddTask Tx Res → Multiset (AddCall Tx Res)
  | .calling calls => ↑calls
  | .writing call _ rest => call ::ₘ ↑rest

/-- No thread reads an entry that another has read and not yet written. -/
def Undisturbed (hashXdr : Tx → Hash) (pool : Pool (TxSetRound Tx Res) (AddTask Tx Res)) :
    AddTask Tx Res → Prop
  | .calling (call :: _) => hashXdr call.tx ∉ pendingHashes hashXdr pool.tasks
  | _ => True

def UndisturbedStep (hashXdr : Tx → Hash) (pool : Pool (TxSetRound Tx Res) (AddTask Tx Res))
    (label : AddTask Tx Res) (next : Pool (TxSetRound Tx Res) (AddTask Tx Res)) : Prop :=
  Threads.Step (AddMoves hashXdr) pool label next ∧ Undisturbed hashXdr pool label

structure EntryKept (hashXdr : Tx → Hash) (written : Multiset (AddCall Tx Res)) (key : Hash)
    (entry : TxSetEntry Tx Res) : Prop where
  results : (entry.nondeterministicResults : Multiset Res) =
    (written.filter fun call => hashXdr call.tx = key).map AddCall.nres
  tx : entry.nondeterministicResults ≠ [] →
    ∃ call ∈ written, call.tx = entry.tx ∧ hashXdr call.tx = key

/-- The entries account for the calls that were written, and every thread that
has yet to write has read the entry as it stands. -/
structure TxSetKept (hashXdr : Tx → Hash) (added : Multiset (AddCall Tx Res))
    (pool : Pool (TxSetRound Tx Res) (AddTask Tx Res)) : Prop where
  unmerged : pool.shared.set.txsMerged = false
  sound : pool.shared.threw = false
  entry : ∀ key entry, pool.shared.set.txs.lookup key = some entry →
    EntryKept hashXdr pool.shared.written key entry
  present : ∀ call ∈ pool.shared.written,
    pool.shared.set.txs.lookup (hashXdr call.tx) ≠ none
  backed : ∀ key entry, pool.shared.set.txs.lookup key = some entry →
    (∃ call ∈ pool.shared.written, hashXdr call.tx = key) ∨
      key ∈ pendingHashes hashXdr pool.tasks
  pending : ∀ call read rest, .writing call read rest ∈ pool.tasks →
    pool.shared.set.txs.lookup (hashXdr call.tx) = some read
  apart : (pendingHashes hashXdr pool.tasks).Nodup
  accounted : pool.shared.written + pool.tasks.bind AddTask.calls = added

variable {hashXdr : Tx → Hash} {added written : Multiset (AddCall Tx Res)}
  {pool next : Pool (TxSetRound Tx Res) (AddTask Tx Res)} {label : AddTask Tx Res}
  {call : AddCall Tx Res} {read entry : TxSetEntry Tx Res} {rest : List (AddCall Tx Res)}
  {tasks : Multiset (AddTask Tx Res)}

omit [Inhabited Tx] [DecidableEq Tx] in
@[simp]
theorem pending_hashes_calling (calls : List (AddCall Tx Res)) :
    pendingHashes hashXdr (.calling calls ::ₘ tasks) = pendingHashes hashXdr tasks :=
  Multiset.filterMap_cons_none _ _ rfl

omit [Inhabited Tx] [DecidableEq Tx] in
@[simp]
theorem pending_hashes_writing :
    pendingHashes hashXdr (.writing call read rest ::ₘ tasks) =
      hashXdr call.tx ::ₘ pendingHashes hashXdr tasks :=
  Multiset.filterMap_cons_some _ _ _ rfl

omit [Inhabited Tx] [DecidableEq Tx] in
theorem pending_hash_mem (member : .writing call read rest ∈ tasks) :
    hashXdr call.tx ∈ pendingHashes hashXdr tasks :=
  (Multiset.mem_filterMap _ _).mpr ⟨_, member, rfl⟩

omit [Inhabited Tx] in
theorem value_insert_entry_of_match
    (matching : read.nondeterministicResults ≠ [] → read.tx = call.tx) :
    valueInsert read call.entry = some
      { tx := call.tx
        nondeterministicResults := read.nondeterministicResults ++ [call.nres] } := by
  by_cases empty : read.nondeterministicResults = []
  · simp [valueInsert, AddCall.entry, empty]
  · simp [valueInsert, AddCall.entry, empty, matching empty]

omit [Inhabited Tx] [DecidableEq Tx] in
theorem EntryKept.extend (kept : EntryKept hashXdr written (hashXdr call.tx) read) :
    EntryKept hashXdr (call ::ₘ written) (hashXdr call.tx)
      { tx := call.tx
        nondeterministicResults := read.nondeterministicResults ++ [call.nres] } := by
  constructor
  · rw [Multiset.filter_cons_of_pos 
      (p := fun added : AddCall Tx Res => hashXdr added.tx = hashXdr call.tx) _ rfl,
      Multiset.map_cons, ← kept.results]
    exact Multiset.coe_eq_coe.mpr (List.perm_append_singleton _ _)
  · intro _
    exact ⟨call, Multiset.mem_cons_self _ _, rfl, rfl⟩

omit [Inhabited Tx] [DecidableEq Tx] in
theorem EntryKept.other {key : Hash} (kept : EntryKept hashXdr written key entry)
    (other : hashXdr call.tx ≠ key) : EntryKept hashXdr (call ::ₘ written) key entry := by
  constructor
  · rw [Multiset.filter_cons_of_neg 
      (p := fun added : AddCall Tx Res => hashXdr added.tx = key) _ other]
    exact kept.results
  · intro nonempty
    obtain ⟨earlier, member, same⟩ := kept.tx nonempty
    exact ⟨earlier, Multiset.mem_cons_of_mem member, same⟩

omit [DecidableEq Tx] in
theorem read_kept {round : TxSetRound Tx Res}
    (kept : TxSetKept hashXdr added ⟨round, .calling (call :: rest) ::ₘ tasks⟩)
    (alone : hashXdr call.tx ∉ pendingHashes hashXdr tasks) :
    TxSetKept hashXdr added
      ⟨{ round with
          set := round.set.store (hashXdr call.tx) (round.set.entryAt (hashXdr call.tx)) },
        .writing call (round.set.entryAt (hashXdr call.tx)) rest ::ₘ tasks⟩ where
  unmerged := kept.unmerged
  sound := kept.sound
  entry := by
    intro key entry found
    by_cases same : key = hashXdr call.tx
    · subst key
      rw [TxSet.store, AList.lookup_insert, Option.some.injEq] at found
      subst entry
      cases current : round.set.txs.lookup (hashXdr call.tx) with
      | some entry =>
          have value : round.set.entryAt (hashXdr call.tx) = entry := by
            rw [TxSet.entryAt, current, Option.getD_some]
          rw [value]
          exact kept.entry _ _ current
      | none =>
          have value : round.set.entryAt (hashXdr call.tx) = (newValue : TxSetEntry Tx Res) := by
            rw [TxSet.entryAt, current, Option.getD_none]
          rw [value]
          constructor
          · have unwritten : round.written.filter
                (fun earlier => hashXdr earlier.tx = hashXdr call.tx) = 0 := by
              apply Multiset.filter_eq_nil.mpr
              intro earlier member equal
              apply kept.present earlier member
              rw [equal]
              exact current
            rw [unwritten]
            rfl
          · intro nonempty
            exact absurd rfl nonempty
    · rw [TxSet.store, AList.lookup_insert_ne same] at found
      exact kept.entry key entry found
  present := by
    intro earlier member
    rw [TxSet.store]
    by_cases same : hashXdr earlier.tx = hashXdr call.tx
    · rw [same, AList.lookup_insert]
      exact Option.some_ne_none _
    · rw [AList.lookup_insert_ne same]
      exact kept.present earlier member
  backed := by
    intro key entry found
    rw [pending_hashes_writing, Multiset.mem_cons]
    by_cases same : key = hashXdr call.tx
    · exact .inr (.inl same)
    · rw [TxSet.store, AList.lookup_insert_ne same] at found
      have backed := kept.backed key entry found
      rw [pending_hashes_calling] at backed
      exact backed.imp_right .inr
  pending := by
    intro other read others member
    rcases Multiset.mem_cons.mp member with head | tail
    · cases head
      exact AList.lookup_insert _
    · have apart : hashXdr other.tx ≠ hashXdr call.tx := by
        intro same
        apply alone
        rw [← same]
        exact pending_hash_mem tail
      rw [TxSet.store, AList.lookup_insert_ne apart]
      exact kept.pending other read others (Multiset.mem_cons_of_mem tail)
  apart := by
    have apart := kept.apart
    rw [pending_hashes_calling] at apart
    rw [pending_hashes_writing]
    exact Multiset.nodup_cons.mpr ⟨alone, apart⟩
  accounted := by
    have accounted := kept.accounted
    rw [Multiset.cons_bind] at accounted
    rw [Multiset.cons_bind]
    exact accounted

omit [Inhabited Tx] [DecidableEq Tx] in
theorem wrote_kept {round : TxSetRound Tx Res}
    (kept : TxSetKept hashXdr added ⟨round, .writing call read rest ::ₘ tasks⟩) :
    TxSetKept hashXdr added
      ⟨{ round with
          set := round.set.store (hashXdr call.tx)
            { tx := call.tx
              nondeterministicResults := read.nondeterministicResults ++ [call.nres] }
          written := call ::ₘ round.written },
        .calling rest ::ₘ tasks⟩ where
  unmerged := kept.unmerged
  sound := kept.sound
  entry := by
    intro key entry found
    by_cases same : key = hashXdr call.tx
    · subst key
      rw [TxSet.store, AList.lookup_insert, Option.some.injEq] at found
      subst entry
      have current := kept.pending call read rest (Multiset.mem_cons_self _ _)
      exact (kept.entry _ _ current).extend
    · rw [TxSet.store, AList.lookup_insert_ne same] at found
      exact (kept.entry key entry found).other (Ne.symm same)
  present := by
    intro earlier member
    rw [TxSet.store]
    by_cases same : hashXdr earlier.tx = hashXdr call.tx
    · rw [same, AList.lookup_insert]
      exact Option.some_ne_none _
    · rw [AList.lookup_insert_ne same]
      rcases Multiset.mem_cons.mp member with head | tail
      · exact absurd (congrArg (fun made => hashXdr made.tx) head) same
      · exact kept.present earlier tail
  backed := by
    intro key entry found
    by_cases same : key = hashXdr call.tx
    · exact .inl ⟨call, Multiset.mem_cons_self _ _, same.symm⟩
    · rw [TxSet.store, AList.lookup_insert_ne same] at found
      rcases kept.backed key entry found with ⟨earlier, member, equal⟩ | pending
      · exact .inl ⟨earlier, Multiset.mem_cons_of_mem member, equal⟩
      · rw [pending_hashes_writing] at pending
        rw [pending_hashes_calling]
        exact .inr ((Multiset.mem_cons.mp pending).resolve_left same)
  pending := by
    intro other seen others member
    have tail : .writing other seen others ∈ tasks :=
      (Multiset.mem_cons.mp member).resolve_left (by simp)
    have apart : hashXdr other.tx ≠ hashXdr call.tx := by
      intro same
      have distinct := kept.apart
      rw [pending_hashes_writing] at distinct
      apply (Multiset.nodup_cons.mp distinct).1
      rw [← same]
      exact pending_hash_mem tail
    rw [TxSet.store, AList.lookup_insert_ne apart]
    exact kept.pending other seen others (Multiset.mem_cons_of_mem tail)
  apart := by
    have apart := kept.apart
    rw [pending_hashes_writing] at apart
    rw [pending_hashes_calling]
    exact (Multiset.nodup_cons.mp apart).2
  accounted := by
    have accounted := kept.accounted
    rw [Multiset.cons_bind] at accounted
    rw [Multiset.cons_bind, ← accounted]
    simp only [AddTask.calls, Multiset.cons_add, Multiset.add_cons]

omit [Inhabited Tx] [DecidableEq Tx] in
theorem pending_call_added
    (kept : TxSetKept hashXdr added pool) (member : .writing call read rest ∈ pool.tasks) :
    call ∈ added := by
  rw [← kept.accounted]
  apply Multiset.mem_add.mpr (.inr _)
  apply Multiset.mem_bind.mpr
  refine ⟨_, member, ?_⟩
  rw [AddTask.calls]
  exact Multiset.mem_cons_self _ _

omit [Inhabited Tx] [DecidableEq Tx] in
theorem read_matches
    (collision_free : ∀ first ∈ added, ∀ second ∈ added,
      hashXdr first.tx = hashXdr second.tx → first.tx = second.tx)
    (kept : TxSetKept hashXdr added pool) (member : .writing call read rest ∈ pool.tasks)
    (nonempty : read.nondeterministicResults ≠ []) : read.tx = call.tx := by
  have current := kept.pending call read rest member
  obtain ⟨earlier, found, same, equal⟩ := (kept.entry _ _ current).tx nonempty
  rw [← same]
  apply collision_free
  · rw [← kept.accounted]
    exact Multiset.mem_add.mpr (.inl found)
  · exact pending_call_added kept member
  · exact equal

theorem undisturbed_step_kept
    (collision_free : ∀ first ∈ added, ∀ second ∈ added,
      hashXdr first.tx = hashXdr second.tx → first.tx = second.tx)
    (kept : TxSetKept hashXdr added pool) (step : UndisturbedStep hashXdr pool label next) :
    TxSetKept hashXdr added next := by
  obtain ⟨moved, alone⟩ := step
  cases moved with
  | move others moved =>
      cases moved with
      | returned =>
          exact
            { unmerged := kept.unmerged
              sound := kept.sound
              entry := kept.entry
              present := kept.present
              backed := by
                have backed := kept.backed
                rw [pending_hashes_calling] at backed
                rwa [Multiset.zero_add]
              pending := by
                intro call read rest member
                rw [Multiset.zero_add] at member
                exact kept.pending call read rest (Multiset.mem_cons_of_mem member)
              apart := by
                have apart := kept.apart
                rw [pending_hashes_calling] at apart
                rwa [Multiset.zero_add]
              accounted := by
                have accounted := kept.accounted
                rw [Multiset.cons_bind] at accounted
                rw [← accounted, Multiset.zero_add]
                exact congrArg _ (Multiset.zero_add _).symm }
      | read open_set unlocked =>
          apply read_kept kept
          rwa [Undisturbed, pending_hashes_calling] at alone
      | @wrote _ call read entry rest inserted =>
          rw [value_insert_entry_of_match
            (read_matches collision_free kept (Multiset.mem_cons_self _ _)),
            Option.some.injEq] at inserted
          subst entry
          exact wrote_kept kept
      | @mismatched _ call read rest inserted =>
          rw [value_insert_entry_of_match
            (read_matches collision_free kept (Multiset.mem_cons_self _ _))] at inserted
          exact absurd inserted (Option.some_ne_none _)
      | locked open_set acquired inserted =>
          exact absurd acquired Bool.false_ne_true

omit [Inhabited Tx] [DecidableEq Tx] in
theorem tx_set_pool_kept (threads : Multiset (List (AddCall Tx Res))) :
    TxSetKept hashXdr (addedCalls threads) (txSetPool threads) where
  unmerged := rfl
  sound := rfl
  entry key entry found := absurd found (by simp [txSetPool])
  present call member := absurd member (Multiset.notMem_zero _)
  backed key entry found := absurd found (by simp [txSetPool])
  pending call read rest member := absurd member (by simp [txSetPool])
  apart := by
    have idle : pendingHashes hashXdr (txSetPool threads).tasks = 0 := by
      apply Multiset.eq_zero_of_forall_notMem
      intro key member
      obtain ⟨task, found, writing⟩ := (Multiset.mem_filterMap _ _).mp member
      obtain ⟨calls, _, rfl⟩ := Multiset.mem_map.mp found
      exact absurd writing.symm (Option.some_ne_none _)
    rw [idle]
    exact Multiset.nodup_zero
  accounted := by
    rw [txSetPool, Multiset.zero_add, Multiset.bind_map]
    rfl

omit [Inhabited Tx] in
theorem TxSetKept.faithful
    (collision_free : ∀ first ∈ added, ∀ second ∈ added,
      hashXdr first.tx = hashXdr second.tx → first.tx = second.tx)
    (kept : TxSetKept hashXdr added pool) (finished : pool.Finished) :
    Faithful added { transactions := pool.shared.set.txs.entries.map Sigma.snd } := by
  have written : pool.shared.written = added := by
    rw [← kept.accounted, finished, Multiset.zero_bind, Multiset.add_zero]
  have found {key : Hash} {entry : TxSetEntry Tx Res}
      (member : ⟨key, entry⟩ ∈ pool.shared.set.txs.entries) :
      pool.shared.set.txs.lookup key = some entry :=
    AList.mem_lookup_iff.mpr member
  have keyed {key : Hash} {entry : TxSetEntry Tx Res}
      (member : ⟨key, entry⟩ ∈ pool.shared.set.txs.entries) :
      ∃ call ∈ added, call.tx = entry.tx ∧ hashXdr call.tx = key := by
    have current := kept.entry key entry (found member)
    rcases kept.backed key entry (found member) with ⟨call, used, equal⟩ | pending
    · rw [← written]
      apply current.tx
      intro empty
      have results := current.results
      rw [empty] at results
      have none_left := Multiset.map_eq_zero.mp results.symm
      exact Multiset.filter_eq_nil.mp none_left call used equal
    · rw [finished] at pending
      exact absurd pending (Multiset.notMem_zero _)
  constructor
  · rw [List.map_map]
    apply List.Nodup.of_map (f := hashXdr)
    rw [List.map_map]
    have keys : pool.shared.set.txs.entries.map (hashXdr ∘ TxSetEntry.tx ∘ Sigma.snd) =
        pool.shared.set.txs.keys := by
      apply List.map_congr_left
      intro pair member
      obtain ⟨call, _, same, equal⟩ := keyed member
      exact (congrArg hashXdr same.symm).trans equal
    rw [keys]
    exact pool.shared.set.txs.keys_nodup
  · intro call member
    rw [← written] at member
    obtain ⟨entry, current⟩ := Option.ne_none_iff_exists'.mp (kept.present call member)
    have listed := AList.mem_lookup_iff.mp current
    refine ⟨entry, List.mem_map.mpr ⟨_, listed, rfl⟩, ?_⟩
    obtain ⟨earlier, used, same, equal⟩ := keyed listed
    rw [← same]
    rw [written] at member
    exact collision_free earlier used call member equal
  · intro entry member
    obtain ⟨pair, listed, rfl⟩ := List.mem_map.mp member
    obtain ⟨call, used, same, _⟩ := keyed listed
    exact ⟨call, used, same⟩
  · intro entry member
    obtain ⟨pair, listed, rfl⟩ := List.mem_map.mp member
    rw [(kept.entry _ _ (found listed)).results, written]
    obtain ⟨call, used, same, equal⟩ := keyed listed
    congr 1
    apply Multiset.filter_congr
    intro other otherUsed
    constructor
    · intro sameKey
      rw [← same]
      exact collision_free other otherUsed call used (sameKey.trans equal.symm)
    · intro sameTx
      rw [sameTx, ← same, equal]

theorem read_step {round : TxSetRound Tx Res} (call : AddCall Tx Res)
    (rest : List (AddCall Tx Res)) (tasks : Multiset (AddTask Tx Res))
    (open_set : round.set.txsMerged = false) :
    Threads.Step (AddMoves hashXdr) ⟨round, .calling (call :: rest) ::ₘ tasks⟩
      (.calling (call :: rest))
      ⟨{ round with
          set := round.set.store (hashXdr call.tx) (round.set.entryAt (hashXdr call.tx)) },
        .writing call (round.set.entryAt (hashXdr call.tx)) rest ::ₘ tasks⟩ := by
  rw [← Multiset.singleton_add]
  exact .move tasks (AddMoves.read open_set rfl)

theorem wrote_step {round : TxSetRound Tx Res} (rest : List (AddCall Tx Res))
    (tasks : Multiset (AddTask Tx Res)) (inserted : valueInsert read call.entry = some entry) :
    Threads.Step (AddMoves hashXdr) ⟨round, .writing call read rest ::ₘ tasks⟩
      (.writing call read rest)
      ⟨{ round with
          set := round.set.store (hashXdr call.tx) entry
          written := call ::ₘ round.written },
        .calling rest ::ₘ tasks⟩ := by
  rw [← Multiset.singleton_add]
  exact .move tasks (AddMoves.wrote inserted)

theorem returned_step {round : TxSetRound Tx Res} (tasks : Multiset (AddTask Tx Res)) :
    Threads.Step (AddMoves hashXdr) ⟨round, .calling [] ::ₘ tasks⟩ (.calling [])
      ⟨round, tasks⟩ := by
  have returns : AddMoves hashXdr round (.calling []) round 0 := .returned
  have step := Threads.Step.move tasks returns
  rwa [Multiset.zero_add] at step

/-- In a run in which no thread reads an entry that another has read and not yet
written, no call throws and the block lists every added result. -/
theorem tx_set_loses_nothing (threads : Multiset (List (AddCall Tx Res)))
    {labels : List (AddTask Tx Res)} {final : Pool (TxSetRound Tx Res) (AddTask Tx Res)}
    (collision_free : ∀ first ∈ addedCalls threads, ∀ second ∈ addedCalls threads,
      hashXdr first.tx = hashXdr second.tx → first.tx = second.tx)
    (run : Run (UndisturbedStep hashXdr) (txSetPool threads) labels final)
    (finished : final.Finished) :
    final.shared.threw = false ∧
      ∃ block, final.shared.set.finalize.bind TxSet.serializeBlock = some block ∧
        Faithful (addedCalls threads) block := by
  have kept : TxSetKept hashXdr (addedCalls threads) final :=
    run_invariant (TxSetKept hashXdr (addedCalls threads))
      (fun _ _ _ => undisturbed_step_kept collision_free) (tx_set_pool_kept threads) run
  refine ⟨kept.sound, _, ?_, kept.faithful collision_free finished⟩
  rw [TxSet.finalize, kept.unmerged]
  rfl

theorem tx_set_loses_nothing_twice : ∃ labels final,
    Run (UndisturbedStep fun tx => BitVec.ofNat 256 tx)
      (txSetPool ({[⟨0, 1⟩], [⟨0, 2⟩]} : Multiset (List (AddCall ℕ ℕ)))) labels final ∧
    final.shared.threw = false ∧
      ∃ block, final.shared.set.finalize.bind TxSet.serializeBlock = some block ∧
        Faithful (addedCalls {[⟨0, 1⟩], [⟨0, 2⟩]}) block := by
  have start : txSetPool ({[⟨0, 1⟩], [⟨0, 2⟩]} : Multiset (List (AddCall ℕ ℕ))) =
      ⟨{ set := { txs := ∅, txsMerged := false }, written := 0, threw := false },
        .calling [⟨0, 1⟩] ::ₘ .calling [⟨0, 2⟩] ::ₘ 0⟩ := rfl
  have run : ∃ labels final, Run (UndisturbedStep fun tx => BitVec.ofNat 256 tx)
      (txSetPool ({[⟨0, 1⟩], [⟨0, 2⟩]} : Multiset (List (AddCall ℕ ℕ)))) labels final ∧
      final.Finished := by
    rw [start]
    apply Exists.intro
    apply Exists.intro
    constructor
    · apply Run.cons ⟨read_step ⟨0, 1⟩ [] _ rfl, Multiset.notMem_zero _⟩
      apply Run.cons ⟨wrote_step [] _ rfl, trivial⟩
      apply Run.cons ⟨returned_step _, trivial⟩
      apply Run.cons ⟨read_step ⟨0, 2⟩ [] _ rfl, Multiset.notMem_zero _⟩
      apply Run.cons ⟨wrote_step [] _ rfl, trivial⟩
      apply Run.cons ⟨returned_step _, trivial⟩
      exact Run.nil _
    · rfl
  obtain ⟨labels, final, run, finished⟩ := run
  exact ⟨labels, final, run, tx_set_loses_nothing _ (by decide) run finished⟩

/-! ## Two threads that read the same entry -/

def racingThreads : Multiset (List (AddCall ℕ ℕ)) := {[⟨0, 1⟩], [⟨0, 2⟩], [⟨0, 3⟩]}

/-- The second and the third read the entry that the first has written. -/
theorem racing_run : ∃ labels final,
    Run (Threads.Step (AddMoves fun tx => BitVec.ofNat 256 tx)) (txSetPool racingThreads) labels
      final ∧
    final.Finished ∧ final.shared.set.finalize.bind TxSet.serializeBlock =
      some { transactions := [{ tx := 0, nondeterministicResults := [1, 2] }] } := by
  have start : txSetPool racingThreads =
      ⟨{ set := { txs := ∅, txsMerged := false }, written := 0, threw := false },
        .calling [⟨0, 1⟩] ::ₘ .calling [⟨0, 2⟩] ::ₘ .calling [⟨0, 3⟩] ::ₘ 0⟩ := rfl
  rw [start]
  apply Exists.intro
  apply Exists.intro
  constructor
  · apply Run.cons (read_step ⟨0, 1⟩ [] _ rfl)
    apply Run.cons (wrote_step [] _ rfl)
    apply Run.cons (returned_step _)
    apply Run.cons (read_step ⟨0, 2⟩ [] _ rfl)
    rw [Multiset.cons_swap]
    apply Run.cons (read_step ⟨0, 3⟩ [] _ rfl)
    apply Run.cons (wrote_step [] _ rfl)
    apply Run.cons (returned_step _)
    apply Run.cons (wrote_step [] _ rfl)
    apply Run.cons (returned_step _)
    exact Run.nil _
  · exact ⟨rfl, rfl⟩

theorem racing_result_lost :
    ¬ ∀ (threads : Multiset (List (AddCall ℕ ℕ))) (labels : List (AddTask ℕ ℕ))
        (final : Pool (TxSetRound ℕ ℕ) (AddTask ℕ ℕ)),
      Run (Threads.Step (AddMoves fun tx => BitVec.ofNat 256 tx)) (txSetPool threads) labels final →
      final.Finished →
      final.shared.threw = false ∧
        ∃ block, final.shared.set.finalize.bind TxSet.serializeBlock = some block ∧
          Faithful (addedCalls threads) block := by
  intro faithful
  obtain ⟨labels, final, run, finished, lost⟩ := racing_run
  obtain ⟨_, block, serialized, faithful⟩ := faithful racingThreads labels final run finished
  rw [lost, Option.some.injEq] at serialized
  subst block
  have results := faithful.results _ (List.mem_singleton_self _)
  exact absurd (congrArg Multiset.card results) (by decide)

end TxSet

end Scs
