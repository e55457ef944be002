import Scs.Library.Threads
import Scs.Library.Words
import Mathlib.Algebra.Order.BigOperators.Group.Multiset
import Mathlib.Data.Multiset.Filter
import Mathlib.Logic.Function.Basic
import Mathlib.Data.List.Count

/-!
# The mempool (`mempool/mempool.cc`)

A ring buffer of `MAX_MEMPOOL_SIZE` slots. One word packs the index up to which
slots are filled and the index up to which they are consumed, both modulo the
size. Workers take the next index by a fetch-add before they compare; one
producer at a time loads the word, fills slots and stores the word back.
-/

namespace Scs

set_option autoImplicit false

open Runs Threads Words

def maxMempoolSize : UInt64 := 0x1000000

variable {Tx : Type}

structure Mempool (Tx : Type) where
  ringbuffer : ℕ → Tx
  indices : UInt64

def consumedIdx (i : UInt64) : UInt32 := (i &&& 0xFFFFFFFF).toUInt32

def filledIdx (i : UInt64) : UInt32 := (i >>> 32).toUInt32

def packIndices (filled consumed : UInt32) : UInt64 := (filled.toUInt64 <<< 32) + consumed.toUInt64

def slotOf (index : ℕ) : ℕ := index % maxMempoolSize.toNat

namespace Mempool

def start [Inhabited Tx] : Mempool Tx where
  ringbuffer _ := default
  indices := 0

def setSlot (index : ℕ) (tx : Tx) (mempool : Mempool Tx) : Mempool Tx :=
  { mempool with ringbuffer := Function.update mempool.ringbuffer (slotOf index) tx }

def fetchAdd (mempool : Mempool Tx) : Mempool Tx :=
  { mempool with indices := mempool.indices + 1 }

def availableSize (mempool : Mempool Tx) : UInt32 :=
  if filledIdx mempool.indices < consumedIdx mempool.indices then 0
  else filledIdx mempool.indices - consumedIdx mempool.indices

end Mempool

@[simp]
theorem set_slot_self (index : ℕ) (tx : Tx) (mempool : Mempool Tx) :
    (mempool.setSlot index tx).ringbuffer (slotOf index) = tx :=
  Function.update_self _ _ _

theorem set_slot_other {index other : ℕ} (apart : slotOf other ≠ slotOf index) (tx : Tx)
    (mempool : Mempool Tx) :
    (mempool.setSlot index tx).ringbuffer (slotOf other) = mempool.ringbuffer (slotOf other) :=
  Function.update_of_ne apart _ _

/-! ## `add_txs`, from the word that it loads -/

def loadedConsumed (i : UInt64) : UInt32 :=
  if filledIdx i < consumedIdx i then filledIdx i else consumedIdx i

def writeNow (i : UInt64) (txs : List Tx) : UInt32 :=
  let usedSpace := filledIdx i - loadedConsumed i
  min (maxMempoolSize - usedSpace.toUInt64).toUInt32 (UInt32.ofNat txs.length)

def storedIndices (i : UInt64) (txs : List Tx) : UInt64 :=
  packIndices ((filledIdx i + writeNow i txs).toUInt64 % maxMempoolSize).toUInt32
    ((loadedConsumed i).toUInt64 % maxMempoolSize).toUInt32

/-! ## Threads -/

/-- The pool with what `add_txs` has counted as added, and what each successful
call of `get_new_tx`, by the order of their fetch-adds, has returned so far. -/
structure MempoolRound (Tx : Type) where
  mempool : Mempool Tx
  added : List Tx
  taken : List (Option Tx)

/-- The producer, or its `add_txs` with the word that it loaded and the next
transaction to write; the workers; a call that has taken an index. -/
inductive MempoolTask (Tx : Type) where
  | producer
  | filling (i : UInt64) (txs : List Tx) (cpy : ℕ)
  | workers
  | taking (consumed : UInt32) (call : ℕ)

/-- One access to the word or to a slot. A transaction that was moved out of its
slot leaves `movedFrom` of it behind. -/
inductive MempoolMoves (movedFrom : Tx → Tx) :
    Threads.Moves (MempoolRound Tx) (MempoolTask Tx)
  | loaded {round : MempoolRound Tx} (txs : List Tx) :
      MempoolMoves movedFrom round .producer round {.filling round.mempool.indices txs 0}
  | wrote {round : MempoolRound Tx} {i : UInt64} {txs : List Tx} {cpy : ℕ} {tx : Tx}
      (more : cpy < (writeNow i txs).toNat) (found : txs[cpy]? = some tx) :
      MempoolMoves movedFrom round (.filling i txs cpy)
        { round with mempool := round.mempool.setSlot ((filledIdx i).toNat + cpy) tx }
        {.filling i txs (cpy + 1)}
  | stored {round : MempoolRound Tx} {i : UInt64} {txs : List Tx} :
      MempoolMoves movedFrom round (.filling i txs (writeNow i txs).toNat)
        { round with
          mempool := { round.mempool with indices := storedIndices i txs }
          added := round.added ++ txs.take (writeNow i txs).toNat }
        {.producer}
  | missed {round : MempoolRound Tx}
      (empty : filledIdx round.mempool.indices ≤ consumedIdx round.mempool.indices) :
      MempoolMoves movedFrom round .workers { round with mempool := round.mempool.fetchAdd }
        {.workers}
  | claimed {round : MempoolRound Tx}
      (filled : consumedIdx round.mempool.indices < filledIdx round.mempool.indices) :
      MempoolMoves movedFrom round .workers
        { round with mempool := round.mempool.fetchAdd, taken := round.taken ++ [none] }
        (.workers ::ₘ {.taking (consumedIdx round.mempool.indices) round.taken.length})
  | took {round : MempoolRound Tx} {consumed : UInt32} {call : ℕ} :
      MempoolMoves movedFrom round (.taking consumed call)
        { round with
          mempool := round.mempool.setSlot consumed.toNat
            (movedFrom (round.mempool.ringbuffer (slotOf consumed.toNat)))
          taken := round.taken.set call
            (some (round.mempool.ringbuffer (slotOf consumed.toNat))) }
        0

abbrev MempoolPool (Tx : Type) := Pool (MempoolRound Tx) (MempoolTask Tx)

/-- An empty pool; the workers stand for every worker, as any number of their
calls may be under way. -/
def mempoolPool [Inhabited Tx] : MempoolPool Tx where
  shared := { mempool := .start, added := [], taken := [] }
  tasks := .producer ::ₘ {.workers}

def MempoolTask.AtRest : MempoolTask Tx → Prop
  | .producer | .workers => True
  | _ => False

/-- The move is part of `get_new_tx`. -/
def MempoolTask.isGet : MempoolTask Tx → Bool
  | .workers | .taking .. => true
  | _ => false

/-- The move is the fetch-add of a call of `get_new_tx`. -/
def MempoolTask.isFetchAdd : MempoolTask Tx → Bool
  | .workers => true
  | _ => false

/-- The word does not lose what the workers did: a fetch-add does not carry into
the filled index, and while `add_txs` runs the filled index stays below the size
and no transaction is taken. -/
def WordKept (round : MempoolRound Tx) : MempoolTask Tx → Prop
  | .workers => consumedIdx round.mempool.indices ≠ 0xFFFFFFFF
  | .filling i txs _ =>
      (filledIdx i).toNat + (writeNow i txs).toNat < maxMempoolSize.toNat ∧
        (filledIdx i ≤ consumedIdx i ∨ round.mempool.indices = i)
  | _ => True

def OrderlyMoves (movedFrom : Tx → Tx) : Threads.Moves (MempoolRound Tx) (MempoolTask Tx) :=
  fun round task after left => MempoolMoves movedFrom round task after left ∧ WordKept round task

/-- Nothing is lost and nothing duplicated: each successful call returns the
transaction of its turn; a transaction stays in its slot until it is taken; at
rest the available size is what is left; and when that many calls have been made
and have ended, every transaction is returned by the call of its turn. -/
structure Delivers (movedFrom : Tx → Tx) (pool : MempoolPool Tx) : Prop where
  ordered : ∀ (turn : ℕ) (tx : Tx), pool.shared.taken[turn]? = some (some tx) →
    pool.shared.added[turn]? = some tx
  inPlace : ∀ (turn : ℕ) (tx : Tx), pool.shared.added[turn]? = some tx →
    (∀ returned, pool.shared.taken[turn]? ≠ some (some returned)) →
      pool.shared.mempool.ringbuffer (slotOf turn) = tx
  available : (∀ task ∈ pool.tasks, task.AtRest) →
    pool.shared.mempool.availableSize.toNat + pool.shared.taken.length =
      pool.shared.added.length
  complete : ∀ (labels : List (MempoolTask Tx)) (final : MempoolPool Tx),
    Run (Threads.Step (OrderlyMoves movedFrom)) pool labels final →
      (∀ label ∈ labels, label.isGet = true) → (∀ task ∈ final.tasks, task.AtRest) →
        pool.shared.added.length ≤
            labels.countP MempoolTask.isFetchAdd + pool.shared.taken.length →
          final.shared.taken = pool.shared.added.map some

/-! ## The packed word -/

theorem consumed_idx_eq (i : UInt64) : (consumedIdx i).toNat = i.toNat % 2 ^ 32 := by
  have mask : (0xFFFFFFFF : UInt64).toNat = 2 ^ 32 - 1 := rfl
  rw [consumedIdx, UInt64.toNat_toUInt32, UInt64.toNat_and, mask, Nat.and_two_pow_sub_one_eq_mod,
    Nat.mod_mod]

theorem filled_idx_eq (i : UInt64) : (filledIdx i).toNat = i.toNat / 2 ^ 32 := by
  have bounded := i.toNat_lt
  have shift : (32 : UInt64).toNat % 64 = 32 := rfl
  rw [filledIdx, UInt64.toNat_toUInt32, UInt64.toNat_shiftRight, shift, Nat.shiftRight_eq_div_pow]
  omega

theorem pack_indices_eq (filled consumed : UInt32) :
    (packIndices filled consumed).toNat = filled.toNat * 2 ^ 32 + consumed.toNat := by
  have filledBound := filled.toNat_lt
  have consumedBound := consumed.toNat_lt
  have shift : (32 : UInt64).toNat % 64 = 32 := rfl
  rw [packIndices, UInt64.toNat_add, UInt64.toNat_shiftLeft, shift, UInt32.toNat_toUInt64,
    UInt32.toNat_toUInt64, Nat.shiftLeft_eq]
  omega

/-- A fetch-add moves the consumed index alone, unless it carries. The two halves of the
word are separate counters only as long as no carry happens. -/
theorem fetch_add_idx {i : UInt64} (stays : consumedIdx i ≠ 0xFFFFFFFF) :
    (consumedIdx (i + 1)).toNat = (consumedIdx i).toNat + 1 ∧
      (filledIdx (i + 1)).toNat = (filledIdx i).toNat := by
  have bounded := i.toNat_lt
  have one : (1 : UInt64).toNat = 1 := rfl
  have below : (consumedIdx i).toNat ≠ 2 ^ 32 - 1 := by
    intro top
    apply stays
    rw [← UInt32.toNat_inj, top]
    rfl
  rw [consumed_idx_eq] at below
  rw [consumed_idx_eq, consumed_idx_eq, filled_idx_eq, filled_idx_eq, UInt64.toNat_add, one]
  omega

theorem slot_of_below {index : ℕ} (below : index < maxMempoolSize.toNat) :
    slotOf index = index := Nat.mod_eq_of_lt below

theorem loaded_consumed_eq (i : UInt64) :
    (loadedConsumed i).toNat = min (consumedIdx i).toNat (filledIdx i).toNat := by
  unfold loadedConsumed
  split_ifs with overshot
  · have less := UInt32.lt_iff_toNat_lt.mp overshot
    omega
  · have less := UInt32.le_iff_toNat_le.mp (UInt32.not_lt.mp overshot)
    omega

theorem write_now_le (i : UInt64) (txs : List Tx) : (writeNow i txs).toNat ≤ txs.length := by
  have truncated := Nat.mod_le txs.length (2 ^ 32)
  unfold writeNow
  rw [uint32_min_eq, UInt32.toNat_ofNat']
  omega

/-- The word that `add_txs` stores below the end of the ring. -/
theorem stored_indices_eq {i : UInt64} {txs : List Tx}
    (room : (filledIdx i).toNat + (writeNow i txs).toNat < maxMempoolSize.toNat) :
    (filledIdx (storedIndices i txs)).toNat = (filledIdx i).toNat + (writeNow i txs).toNat ∧
      (consumedIdx (storedIndices i txs)).toNat =
        min (consumedIdx i).toNat (filledIdx i).toNat := by
  have size : maxMempoolSize.toNat = 2 ^ 24 := rfl
  have consumed := loaded_consumed_eq i
  have filledWord : ((filledIdx i + writeNow i txs).toUInt64 % maxMempoolSize).toUInt32.toNat =
      (filledIdx i).toNat + (writeNow i txs).toNat := by
    rw [UInt64.toNat_toUInt32, UInt64.toNat_mod, UInt32.toNat_toUInt64, UInt32.toNat_add, size]
    omega
  have consumedWord : ((loadedConsumed i).toUInt64 % maxMempoolSize).toUInt32.toNat =
      min (consumedIdx i).toNat (filledIdx i).toNat := by
    rw [UInt64.toNat_toUInt32, UInt64.toNat_mod, UInt32.toNat_toUInt64, consumed, size]
    omega
  have consumedBound := ((loadedConsumed i).toUInt64 % maxMempoolSize).toUInt32.toNat_lt
  rw [consumed_idx_eq (storedIndices i txs), filled_idx_eq (storedIndices i txs), storedIndices,
    pack_indices_eq, filledWord, consumedWord]
  rw [consumedWord] at consumedBound
  omega

/-! ## What orderly moves keep -/

def MempoolTask.turn? : MempoolTask Tx → Option ℕ
  | .taking _ call => some call
  | _ => none

def MempoolTask.adds : MempoolTask Tx → ℕ
  | .producer | .filling .. => 1
  | _ => 0

/-- An `add_txs` has filled the slots after those that are counted as added. -/
structure FillingKept (round : MempoolRound Tx) (i : UInt64) (txs : List Tx) (cpy : ℕ) :
    Prop where
  filled : (filledIdx i).toNat = round.added.length
  consumed : (consumedIdx i).toNat ≤ (consumedIdx round.mempool.indices).toNat
  copied : cpy ≤ (writeNow i txs).toNat
  room : 0 < cpy → (filledIdx i).toNat + (writeNow i txs).toNat < maxMempoolSize.toNat
  slots : ∀ j < cpy, ∀ tx, txs[j]? = some tx →
    round.mempool.ringbuffer (slotOf (round.added.length + j)) = tx

def openTurns (tasks : Multiset (MempoolTask Tx)) : Multiset ℕ :=
  tasks.filterMap MempoolTask.turn?

def producers (tasks : Multiset (MempoolTask Tx)) : ℕ := (tasks.map MempoolTask.adds).sum

structure MempoolKept (round : MempoolRound Tx) (tasks : Multiset (MempoolTask Tx)) : Prop where
  filled : (filledIdx round.mempool.indices).toNat = round.added.length
  below : round.added.length < maxMempoolSize.toNat
  consumed : round.taken.length =
    min (consumedIdx round.mempool.indices).toNat round.added.length
  ordered : ∀ (turn : ℕ) (tx : Tx), round.taken[turn]? = some (some tx) →
    round.added[turn]? = some tx
  inPlace : ∀ (turn : ℕ) (tx : Tx), round.added[turn]? = some tx →
    (∀ returned, round.taken[turn]? ≠ some (some returned)) →
      round.mempool.ringbuffer (slotOf turn) = tx
  taking : ∀ consumed call, .taking consumed call ∈ tasks →
    consumed.toNat = call ∧ round.taken[call]? = some none
  apart : (openTurns tasks).Nodup
  backed : ∀ turn : ℕ, round.taken[turn]? = some none → turn ∈ openTurns tasks
  single : producers tasks = 1
  filling : ∀ i txs cpy, .filling i txs cpy ∈ tasks → FillingKept round i txs cpy

variable {round : MempoolRound Tx} {rest : Multiset (MempoolTask Tx)} {i : UInt64}
  {txs : List Tx} {cpy : ℕ}

@[simp]
theorem open_turns_taking (consumed : UInt32) (call : ℕ) :
    openTurns (.taking consumed call ::ₘ rest) = call ::ₘ openTurns rest :=
  Multiset.filterMap_cons_some MempoolTask.turn? _ _ rfl

@[simp]
theorem open_turns_producer : openTurns (.producer ::ₘ rest) = openTurns rest :=
  Multiset.filterMap_cons_none _ _ rfl

@[simp]
theorem open_turns_filling : openTurns (.filling i txs cpy ::ₘ rest) = openTurns rest :=
  Multiset.filterMap_cons_none _ _ rfl

@[simp]
theorem open_turns_workers : openTurns (.workers ::ₘ rest) = openTurns rest :=
  Multiset.filterMap_cons_none _ _ rfl

@[simp]
theorem producers_cons (task : MempoolTask Tx) :
    producers (task ::ₘ rest) = task.adds + producers rest := by
  rw [producers, Multiset.map_cons, Multiset.sum_cons, producers]

theorem taking_open {consumed : UInt32} {call : ℕ} (member : .taking consumed call ∈ rest) :
    call ∈ openTurns rest :=
  (Multiset.mem_filterMap _ _).mpr ⟨_, member, rfl⟩

theorem open_turn_taking {turn : ℕ} (member : turn ∈ openTurns rest) :
    ∃ consumed, .taking consumed turn ∈ rest := by
  obtain ⟨task, listed, own⟩ := (Multiset.mem_filterMap _ _).mp member
  cases task with
  | taking consumed call =>
      cases own
      exact ⟨consumed, listed⟩
  | _ => cases own

theorem mem_rest {task other : MempoolTask Tx} (member : other ∈ task ::ₘ rest)
    (apart : other ≠ task) : other ∈ rest :=
  (Multiset.mem_cons.mp member).resolve_left apart

theorem no_other_filling (none : producers rest = 0) : .filling i txs cpy ∉ rest := by
  intro member
  have counted := Multiset.sum_eq_zero_iff.mp none 1 (Multiset.mem_map.mpr ⟨_, member, rfl⟩)
  exact absurd counted Nat.one_ne_zero

theorem loaded_kept (kept : MempoolKept round (.producer ::ₘ rest)) (txs : List Tx) :
    MempoolKept round (.filling round.mempool.indices txs 0 ::ₘ rest) := by
  have single := kept.single
  have apart := kept.apart
  have backed := kept.backed
  simp only [producers_cons, MempoolTask.adds, open_turns_producer] at single apart backed
  exact
    { filled := kept.filled
      below := kept.below
      consumed := kept.consumed
      ordered := kept.ordered
      inPlace := kept.inPlace
      taking := by
        intro consumed call member
        have earlier := mem_rest member (fun same => by cases same)
        exact kept.taking consumed call (Multiset.mem_cons_of_mem earlier)
      apart := by rwa [open_turns_filling]
      backed := by
        rw [open_turns_filling]
        exact backed
      single := (producers_cons _).trans single
      filling := by
        intro i others cpy member
        rcases Multiset.mem_cons.mp member with same | earlier
        · cases same
          exact
            { filled := kept.filled
              consumed := Nat.le_refl _
              copied := Nat.zero_le _
              room := fun impossible => absurd impossible (Nat.lt_irrefl 0)
              slots := fun j impossible => absurd impossible (Nat.not_lt_zero j) }
        · exact absurd earlier (no_other_filling (by omega)) }

theorem wrote_slot_kept (kept : MempoolKept round (.filling i txs cpy ::ₘ rest)) {tx : Tx}
    (more : cpy < (writeNow i txs).toNat) (found : txs[cpy]? = some tx)
    (room : (filledIdx i).toNat + (writeNow i txs).toNat < maxMempoolSize.toNat) :
    MempoolKept
      { round with mempool := round.mempool.setSlot ((filledIdx i).toNat + cpy) tx }
      (.filling i txs (cpy + 1) ::ₘ rest) := by
  have own := kept.filling i txs cpy (Multiset.mem_cons_self _ _)
  have filled := own.filled
  have single := kept.single
  have apart := kept.apart
  have backed := kept.backed
  simp only [producers_cons, MempoolTask.adds, open_turns_filling] at single apart backed
  -- the slot that is written lies behind all that are counted as added
  have other : ∀ index < round.added.length + cpy,
      slotOf index ≠ slotOf ((filledIdx i).toNat + cpy) := by
    intro index behind
    rw [slot_of_below (by omega), slot_of_below (by omega)]
    omega
  exact
    { filled := kept.filled
      below := kept.below
      consumed := kept.consumed
      ordered := kept.ordered
      inPlace := by
        intro turn earlier added untaken
        have inside : turn < round.added.length := (List.getElem?_eq_some_iff.mp added).choose
        have unchanged := set_slot_other (other turn (by omega)) tx round.mempool
        exact unchanged.trans (kept.inPlace turn earlier added untaken)
      taking := by
        intro consumed call member
        have earlier := mem_rest member (fun same => by cases same)
        exact kept.taking consumed call (Multiset.mem_cons_of_mem earlier)
      apart := by rwa [open_turns_filling]
      backed := by
        rw [open_turns_filling]
        exact backed
      single := (producers_cons _).trans single
      filling := by
        intro word others position member
        rcases Multiset.mem_cons.mp member with same | earlier
        · cases same
          refine ⟨filled, own.consumed, more, fun _ => room, ?_⟩
          intro j before added listed
          rcases Nat.lt_succ_iff_lt_or_eq.mp before with earlier | rfl
          · have unchanged := set_slot_other (other (round.added.length + j) (by omega)) tx
              round.mempool
            exact unchanged.trans (own.slots j earlier added listed)
          · rw [found] at listed
            cases listed
            have same : slotOf (round.added.length + j) = slotOf ((filledIdx i).toNat + j) := by
              rw [filled]
            exact (congrArg _ same).trans (set_slot_self _ tx round.mempool)
        · exact absurd earlier (no_other_filling (by omega)) }

theorem taken_within (kept : MempoolKept round rest) :
    round.taken.length ≤ round.added.length := by
  have consumed := kept.consumed
  omega

/-- `add_txs` stores back the consumed index that the calls have reached. No call has moved
it since the load, so nothing is handed out twice. -/
theorem stored_kept
    (kept : MempoolKept round (.filling i txs (writeNow i txs).toNat ::ₘ rest))
    (room : (filledIdx i).toNat + (writeNow i txs).toNat < maxMempoolSize.toNat)
    (fresh : filledIdx i ≤ consumedIdx i ∨ round.mempool.indices = i) :
    MempoolKept
      { round with
        mempool := { round.mempool with indices := storedIndices i txs }
        added := round.added ++ txs.take (writeNow i txs).toNat }
      (.producer ::ₘ rest) := by
  have own := kept.filling i txs _ (Multiset.mem_cons_self _ _)
  have filled := own.filled
  have before := own.consumed
  have consumed := kept.consumed
  have within := taken_within kept
  have single := kept.single
  have apart := kept.apart
  have backed := kept.backed
  simp only [producers_cons, MempoolTask.adds, open_turns_filling] at single apart backed
  obtain ⟨filledWord, consumedWord⟩ := stored_indices_eq room
  have counted : (txs.take (writeNow i txs).toNat).length = (writeNow i txs).toNat :=
    List.length_take_of_le (write_now_le i txs)
  have reached : min (consumedIdx i).toNat (filledIdx i).toNat = round.taken.length := by
    rcases fresh with overshot | same
    · have less := UInt32.le_iff_toNat_le.mp overshot
      omega
    · rw [same] at consumed
      omega
  exact
    { filled := by
        rw [filledWord, List.length_append, counted, filled]
      below := by
        rw [List.length_append, counted, ← filled]
        exact room
      consumed := by
        rw [consumedWord, List.length_append, reached]
        exact (Nat.min_eq_left (within.trans (Nat.le_add_right _ _))).symm
      ordered := by
        intro turn tx taken
        have listed := kept.ordered turn tx taken
        have inside := (List.getElem?_eq_some_iff.mp listed).choose
        rwa [List.getElem?_append_left inside]
      inPlace := by
        intro turn tx added untaken
        rcases Nat.lt_or_ge turn round.added.length with earlier | now
        · rw [List.getElem?_append_left earlier] at added
          exact kept.inPlace turn tx added untaken
        · rw [List.getElem?_append_right now, List.getElem?_take] at added
          split_ifs at added with copied
          have slot := own.slots _ copied tx added
          rwa [Nat.add_sub_cancel' now] at slot
      taking := by
        intro consumed call member
        have earlier := mem_rest member (fun same => by cases same)
        exact kept.taking consumed call (Multiset.mem_cons_of_mem earlier)
      apart := by rwa [open_turns_producer]
      backed := by
        rw [open_turns_producer]
        exact backed
      single := (producers_cons _).trans single
      filling := by
        intro word others position member
        have earlier := mem_rest member (fun same => by cases same)
        exact absurd earlier (no_other_filling (by omega)) }

theorem filling_after_fetch (own : FillingKept round i txs cpy)
    (stays : consumedIdx round.mempool.indices ≠ 0xFFFFFFFF) (taken : List (Option Tx)) :
    FillingKept { round with mempool := round.mempool.fetchAdd, taken := taken } i txs cpy := by
  obtain ⟨consumedWord, _⟩ := fetch_add_idx stays
  refine ⟨own.filled, ?_, own.copied, own.room, own.slots⟩
  have before := own.consumed
  change (consumedIdx i).toNat ≤ (consumedIdx (round.mempool.indices + 1)).toNat
  omega

theorem missed_kept (kept : MempoolKept round (.workers ::ₘ rest))
    (stays : consumedIdx round.mempool.indices ≠ 0xFFFFFFFF)
    (empty : filledIdx round.mempool.indices ≤ consumedIdx round.mempool.indices) :
    MempoolKept { round with mempool := round.mempool.fetchAdd } (.workers ::ₘ rest) := by
  obtain ⟨consumedWord, filledWord⟩ := fetch_add_idx stays
  have less := UInt32.le_iff_toNat_le.mp empty
  have filled := kept.filled
  have consumed := kept.consumed
  exact
    { filled := filledWord.trans filled
      below := kept.below
      consumed := by
        rw [Mempool.fetchAdd, consumedWord]
        simp only
        omega
      ordered := kept.ordered
      inPlace := kept.inPlace
      taking := kept.taking
      apart := kept.apart
      backed := kept.backed
      single := kept.single
      filling := fun word others position member =>
        filling_after_fetch (kept.filling word others position member) stays round.taken }

theorem claimed_kept (kept : MempoolKept round (.workers ::ₘ rest))
    (stays : consumedIdx round.mempool.indices ≠ 0xFFFFFFFF)
    (filled : consumedIdx round.mempool.indices < filledIdx round.mempool.indices) :
    MempoolKept
      { round with mempool := round.mempool.fetchAdd, taken := round.taken ++ [none] }
      (.taking (consumedIdx round.mempool.indices) round.taken.length ::ₘ .workers ::ₘ rest) := by
  obtain ⟨consumedWord, filledWord⟩ := fetch_add_idx stays
  have less := UInt32.lt_iff_toNat_lt.mp filled
  have counted := kept.filled
  have consumed := kept.consumed
  -- an entry of the longer list is an earlier one or that of the new call
  have entries : ∀ (turn : ℕ) (entry : Option Tx), (round.taken ++ [none])[turn]? = some entry →
      round.taken[turn]? = some entry ∨ turn = round.taken.length ∧ entry = none := by
    intro turn entry listed
    rcases Nat.lt_or_ge turn round.taken.length with earlier | now
    · rw [List.getElem?_append_left earlier] at listed
      exact .inl listed
    · rw [List.getElem?_append_right now, List.getElem?_singleton] at listed
      split_ifs at listed with first
      cases listed
      exact .inr ⟨by omega, rfl⟩
  exact
    { filled := filledWord.trans counted
      below := kept.below
      consumed := by
        rw [Mempool.fetchAdd, consumedWord, List.length_append, List.length_singleton]
        simp only
        omega
      ordered := by
        intro turn tx listed
        rcases entries turn _ listed with earlier | ⟨_, impossible⟩
        · exact kept.ordered turn tx earlier
        · cases impossible
      inPlace := by
        intro turn tx added untaken
        apply kept.inPlace turn tx added
        intro returned listed
        have inside := (List.getElem?_eq_some_iff.mp listed).choose
        apply untaken returned
        rwa [List.getElem?_append_left inside]
      taking := by
        intro word call member
        rcases Multiset.mem_cons.mp member with same | earlier
        · cases same
          exact ⟨by omega, List.getElem?_concat_length⟩
        · obtain ⟨turn, listed⟩ := kept.taking word call earlier
          have inside := (List.getElem?_eq_some_iff.mp listed).choose
          exact ⟨turn, by rwa [List.getElem?_append_left inside]⟩
      apart := by
        rw [open_turns_taking, Multiset.nodup_cons]
        refine ⟨?_, kept.apart⟩
        intro member
        obtain ⟨word, listed⟩ := open_turn_taking member
        have inside := (List.getElem?_eq_some_iff.mp (kept.taking word _ listed).2).choose
        exact Nat.lt_irrefl _ inside
      backed := by
        intro turn listed
        rw [open_turns_taking, Multiset.mem_cons]
        rcases entries turn _ listed with earlier | ⟨now, _⟩
        · exact .inr (kept.backed turn earlier)
        · exact .inl now
      single := by
        rw [producers_cons]
        exact (Nat.zero_add _).trans kept.single
      filling := by
        intro word others position member
        have earlier := mem_rest member (fun same => by cases same)
        exact filling_after_fetch (kept.filling word others position earlier) stays _ }

theorem took_kept {consumed : UInt32} {call : ℕ}
    (kept : MempoolKept round (.taking consumed call ::ₘ rest)) (moved : Tx) :
    MempoolKept
      { round with
        mempool := round.mempool.setSlot consumed.toNat moved
        taken := round.taken.set call
          (some (round.mempool.ringbuffer (slotOf consumed.toNat))) } rest := by
  obtain ⟨rfl, waiting⟩ := kept.taking consumed call (Multiset.mem_cons_self _ _)
  have inside := (List.getElem?_eq_some_iff.mp waiting).choose
  have within := taken_within kept
  have below := kept.below
  have apart := kept.apart
  have single := kept.single
  rw [open_turns_taking, Multiset.nodup_cons] at apart
  rw [producers_cons] at single
  -- the call reads the transaction of its turn
  have read : round.added[consumed.toNat]? =
      some (round.mempool.ringbuffer (slotOf consumed.toNat)) := by
    have added := List.getElem?_eq_getElem (Nat.lt_of_lt_of_le inside within)
    rw [added, kept.inPlace _ _ added]
    intro returned impossible
    rw [waiting] at impossible
    cases impossible
  have others : ∀ index < maxMempoolSize.toNat, index ≠ consumed.toNat →
      slotOf index ≠ slotOf consumed.toNat := by
    intro index bounded different
    rwa [slot_of_below bounded, slot_of_below (by omega)]
  exact
    { filled := kept.filled
      below := below
      consumed := by
        rw [List.length_set]
        exact kept.consumed
      ordered := by
        intro turn tx listed
        by_cases own : turn = consumed.toNat
        · subst turn
          rw [List.getElem?_set_self inside] at listed
          cases listed
          exact read
        · rw [List.getElem?_set_ne (Ne.symm own)] at listed
          exact kept.ordered turn tx listed
      inPlace := by
        intro turn tx added untaken
        have bounded := (List.getElem?_eq_some_iff.mp added).choose
        have different : turn ≠ consumed.toNat := by
          rintro rfl
          exact untaken _ (List.getElem?_set_self inside)
        have unchanged := set_slot_other (others turn (bounded.trans below) different) moved
          round.mempool
        refine unchanged.trans (kept.inPlace turn tx added ?_)
        intro returned listed
        apply untaken returned
        rwa [List.getElem?_set_ne (Ne.symm different)]
      taking := by
        intro word other member
        obtain ⟨turn, listed⟩ := kept.taking word other (Multiset.mem_cons_of_mem member)
        have different : consumed.toNat ≠ other := by
          rintro rfl
          exact apart.1 (taking_open member)
        exact ⟨turn, by rwa [List.getElem?_set_ne different]⟩
      apart := apart.2
      backed := by
        intro turn listed
        by_cases own : turn = consumed.toNat
        · subst turn
          rw [List.getElem?_set_self inside] at listed
          cases listed
        · rw [List.getElem?_set_ne (Ne.symm own)] at listed
          have earlier := kept.backed turn listed
          rw [open_turns_taking, Multiset.mem_cons] at earlier
          exact earlier.resolve_left own
      single := (Nat.zero_add _).symm.trans single
      filling := by
        intro word txs position member
        have own := kept.filling word txs position (Multiset.mem_cons_of_mem member)
        refine ⟨own.filled, own.consumed, own.copied, own.room, ?_⟩
        intro j before tx listed
        have room := own.room (Nat.zero_lt_of_lt before)
        have filled := own.filled
        have copied := own.copied
        have unchanged := set_slot_other
          (others (round.added.length + j) (by omega) (by omega)) moved round.mempool
        exact unchanged.trans (own.slots j before tx listed) }

variable {movedFrom : Tx → Tx} {pool next : MempoolPool Tx} {label : MempoolTask Tx}

theorem orderly_step_kept (kept : MempoolKept pool.shared pool.tasks)
    (step : Threads.Step (OrderlyMoves movedFrom) pool label next) :
    MempoolKept next.shared next.tasks := by
  cases step with
  | @move round after task left rest moved =>
      obtain ⟨moved, word⟩ := moved
      cases moved with
      | loaded txs => exact loaded_kept kept txs
      | wrote more found => exact wrote_slot_kept kept more found word.1
      | stored => exact stored_kept kept word.1 word.2
      | missed empty => exact missed_kept kept word empty
      | claimed filled =>
          have claimed := claimed_kept kept word filled
          rw [Multiset.cons_swap] at claimed
          simp only [Multiset.cons_add, Multiset.singleton_add]
          exact claimed
      | @took _ consumed call =>
          have took := took_kept kept
            (movedFrom (round.mempool.ringbuffer (slotOf consumed.toNat)))
          rwa [← Multiset.zero_add rest] at took

theorem start_tasks [Inhabited Tx] {task : MempoolTask Tx}
    (member : task ∈ (mempoolPool : MempoolPool Tx).tasks) :
    task = .producer ∨ task = .workers := by
  rw [mempoolPool, Multiset.mem_cons, Multiset.mem_singleton] at member
  exact member

theorem mempool_kept_start [Inhabited Tx] :
    MempoolKept (mempoolPool : MempoolPool Tx).shared mempoolPool.tasks where
  filled := show (filledIdx 0).toNat = 0 by decide
  below := show 0 < maxMempoolSize.toNat by decide
  consumed := (Nat.min_zero _).symm
  ordered turn tx impossible := by cases impossible
  inPlace turn tx impossible := by cases impossible
  taking consumed call member := by rcases start_tasks member with same | same <;> cases same
  apart := Multiset.nodup_zero
  backed turn impossible := by cases impossible
  single := rfl
  filling i txs cpy member := by rcases start_tasks member with same | same <;> cases same

/-- While only calls of `get_new_tx` move, each fetch-add advances the consumed
index and nothing is added. -/
theorem gets_consume {labels : List (MempoolTask Tx)}
    (run : Run (Threads.Step (OrderlyMoves movedFrom)) pool labels next)
    (gets : ∀ label ∈ labels, label.isGet = true) :
    next.shared.added = pool.shared.added ∧
      (consumedIdx next.shared.mempool.indices).toNat =
        (consumedIdx pool.shared.mempool.indices).toNat +
          labels.countP MempoolTask.isFetchAdd := by
  induction run with
  | nil pool => exact ⟨rfl, rfl⟩
  | @cons pool middle final label labels first _ induction =>
      rw [List.forall_mem_cons] at gets
      obtain ⟨added, consumed⟩ := induction gets.2
      rw [added, consumed]
      cases first with
      | @move round after task left rest moved =>
          obtain ⟨moved, word⟩ := moved
          cases moved with
          | loaded | wrote | stored => cases gets.1
          | missed | claimed =>
              obtain ⟨consumedWord, _⟩ := fetch_add_idx word
              rw [List.countP_cons_of_pos rfl]
              refine ⟨rfl, ?_⟩
              rw [Mempool.fetchAdd, consumedWord]
              simp only
              omega
          | took =>
              rw [List.countP_cons_of_neg Bool.false_ne_true]
              exact ⟨rfl, rfl⟩

theorem taken_at_rest (kept : MempoolKept pool.shared pool.tasks)
    (rest : ∀ task ∈ pool.tasks, task.AtRest) :
    pool.shared.taken = (pool.shared.added.take pool.shared.taken.length).map some := by
  apply List.ext_getElem?
  intro turn
  rw [List.getElem?_map, List.getElem?_take]
  split_ifs with inside
  · have listed := List.getElem?_eq_getElem inside
    cases entry : pool.shared.taken[turn] with
    | none =>
        rw [entry] at listed
        obtain ⟨consumed, member⟩ := open_turn_taking (kept.backed turn listed)
        exact absurd (rest _ member) id
    | some tx =>
        rw [entry] at listed
        rw [listed, kept.ordered turn tx listed]
        rfl
  · exact List.getElem?_eq_none (Nat.le_of_not_lt inside)

theorem available_at_rest (kept : MempoolKept pool.shared pool.tasks) :
    pool.shared.mempool.availableSize.toNat + pool.shared.taken.length =
      pool.shared.added.length := by
  have filled := kept.filled
  have consumed := kept.consumed
  unfold Mempool.availableSize
  split_ifs with overshot
  · have less := UInt32.lt_iff_toNat_lt.mp overshot
    have zero : (0 : UInt32).toNat = 0 := rfl
    omega
  · have less := UInt32.le_iff_toNat_le.mp (UInt32.not_lt.mp overshot)
    rw [UInt32.toNat_sub_of_le _ _ (UInt32.not_lt.mp overshot)]
    omega

/-- In every run that carries no fetch-add into the filled index, wraps no filled
index and takes nothing while `add_txs` runs, the mempool loses and duplicates
nothing. -/
theorem mempool_delivers [Inhabited Tx] (movedFrom : Tx → Tx) {labels : List (MempoolTask Tx)}
    {pool : MempoolPool Tx}
    (run : Run (Threads.Step (OrderlyMoves movedFrom)) mempoolPool labels pool) :
    Delivers movedFrom pool := by
  have kept := run_invariant (fun pool => MempoolKept pool.shared pool.tasks)
    (fun _ _ _ => orderly_step_kept) mempool_kept_start run
  constructor
  · exact kept.ordered
  · exact kept.inPlace
  · intro _
    exact available_at_rest kept
  · intro gets final further onlyGets atRest enough
    have finalKept := run_invariant (fun pool => MempoolKept pool.shared pool.tasks)
      (fun _ _ _ => orderly_step_kept) kept further
    obtain ⟨added, advanced⟩ := gets_consume further onlyGets
    have before := kept.consumed
    have after := finalKept.consumed
    have all : final.shared.taken.length = pool.shared.added.length := by
      rw [added] at after
      omega
    rw [taken_at_rest finalKept atRest, added, all, List.take_length]

/-! ## Runs -/

def racedRound (slots : ℕ → ℕ) (indices : UInt64) (added : List ℕ) (taken : List (Option ℕ)) :
    MempoolRound ℕ where
  mempool := { ringbuffer := slots, indices := indices }
  added := added
  taken := taken

theorem workers_first (task : MempoolTask ℕ) :
    (task ::ₘ {.workers} : Multiset (MempoolTask ℕ)) = .workers ::ₘ {task} :=
  Multiset.cons_swap task .workers 0

/-- Two workers claim two transactions, and the later one takes its own first. -/
theorem mempool_delivers_both : ∃ pool : MempoolPool ℕ,
    Delivers id pool ∧ pool.shared.added = [10, 20] ∧ pool.shared.taken = [some 10, some 20] := by
  let empty : ℕ → ℕ := fun _ => 0
  let one := Function.update empty 0 10
  let both := Function.update one 1 20
  let again := Function.update both 1 20
  have loaded : OrderlyMoves id (racedRound empty 0 [] []) .producer (racedRound empty 0 [] [])
      {.filling 0 [10, 20] 0} := ⟨.loaded [10, 20], trivial⟩
  have wrote : OrderlyMoves id (racedRound empty 0 [] []) (.filling 0 [10, 20] 0)
      (racedRound one 0 [] []) {.filling 0 [10, 20] 1} :=
    ⟨.wrote (by decide) rfl, by decide, .inr rfl⟩
  have wroteNext : OrderlyMoves id (racedRound one 0 [] []) (.filling 0 [10, 20] 1)
      (racedRound both 0 [] []) {.filling 0 [10, 20] 2} :=
    ⟨.wrote (by decide) rfl, by decide, .inr rfl⟩
  have stored : OrderlyMoves id (racedRound both 0 [] []) (.filling 0 [10, 20] 2)
      (racedRound both 0x200000000 [10, 20] []) {.producer} := ⟨.stored, by decide, .inr rfl⟩
  have ready : consumedIdx 0x200000000 < filledIdx 0x200000000 := by decide
  have first : consumedIdx 0x200000000 = 0 := by decide
  have stays : consumedIdx 0x200000000 ≠ 0xFFFFFFFF := by decide
  have claimed : OrderlyMoves id (racedRound both 0x200000000 [10, 20] []) .workers
      (racedRound both (0x200000000 + 1) [10, 20] [none])
      (.workers ::ₘ {.taking (consumedIdx 0x200000000) 0}) := ⟨.claimed ready, stays⟩
  have readyNext : consumedIdx (0x200000000 + 1) < filledIdx (0x200000000 + 1) := by decide
  have second : consumedIdx (0x200000000 + 1) = 1 := by decide
  have staysNext : consumedIdx (0x200000000 + 1) ≠ 0xFFFFFFFF := by decide
  have claimedNext : OrderlyMoves id (racedRound both (0x200000000 + 1) [10, 20] [none]) .workers
      (racedRound both (0x200000000 + 1 + 1) [10, 20] [none, none])
      (.workers ::ₘ {.taking (consumedIdx (0x200000000 + 1)) 1}) := ⟨.claimed readyNext, staysNext⟩
  have tookNext : OrderlyMoves id (racedRound both (0x200000000 + 1 + 1) [10, 20] [none, none])
      (.taking 1 1) (racedRound again (0x200000000 + 1 + 1) [10, 20] [none, some 20]) 0 :=
    ⟨.took, trivial⟩
  have took : OrderlyMoves id (racedRound again (0x200000000 + 1 + 1) [10, 20] [none, some 20])
      (.taking 0 0) (racedRound (Function.update again 0 10) (0x200000000 + 1 + 1) [10, 20]
        [some 10, some 20]) 0 := ⟨.took, trivial⟩
  rw [first] at claimed
  rw [second] at claimedNext
  have run : ∃ labels, Run (Threads.Step (OrderlyMoves id)) mempoolPool labels
      ⟨racedRound (Function.update again 0 10) (0x200000000 + 1 + 1) [10, 20] [some 10, some 20],
        .workers ::ₘ {.producer}⟩ := by
    refine ⟨[.producer, .filling 0 [10, 20] 0, .filling 0 [10, 20] 1, .filling 0 [10, 20] 2,
      .workers, .workers, .taking 1 1, .taking 0 0], ?_⟩
    apply Run.cons (Threads.Step.move {.workers} loaded)
    apply Run.cons (Threads.Step.move {.workers} wrote)
    apply Run.cons (Threads.Step.move {.workers} wroteNext)
    apply Run.cons (Threads.Step.move {.workers} stored)
    rw [Multiset.singleton_add, workers_first]
    apply Run.cons (Threads.Step.move {.producer} claimed)
    rw [Multiset.cons_add]
    apply Run.cons (Threads.Step.move ({.taking 0 0} + {.producer}) claimedNext)
    rw [Multiset.cons_add, Multiset.singleton_add, Multiset.cons_swap]
    apply Run.cons (Threads.Step.move (.workers ::ₘ ({.taking 0 0} + {.producer})) tookNext)
    rw [Multiset.zero_add, Multiset.singleton_add, Multiset.cons_swap]
    apply Run.cons (Threads.Step.move (.workers ::ₘ {.producer}) took)
    rw [Multiset.zero_add]
    exact Run.nil _
  obtain ⟨labels, run⟩ := run
  exact ⟨_, mempool_delivers id run, rfl, rfl⟩

/-- A worker takes a transaction while `add_txs` runs; the stored word forgets it,
and the next call takes the same slot. -/
theorem raced_take_repeats : ¬ ∀ (labels : List (MempoolTask ℕ)) (pool : MempoolPool ℕ),
    Run (Threads.Step (MempoolMoves id)) mempoolPool labels pool → Delivers id pool := by
  intro claimed
  let empty : ℕ → ℕ := fun _ => 0
  let one := Function.update empty 0 10
  let again := Function.update one 0 10
  let two := Function.update again 1 20
  have ready : consumedIdx 0x100000000 < filledIdx 0x100000000 := by decide
  have first : consumedIdx 0x100000000 = 0 := by decide
  have repeated : consumedIdx 0x200000000 < filledIdx 0x200000000 := by decide
  have same : consumedIdx 0x200000000 = 0 := by decide
  have loaded : MempoolMoves id (racedRound empty 0 [] []) .producer (racedRound empty 0 [] [])
      {.filling 0 [10] 0} := .loaded [10]
  have wrote : MempoolMoves id (racedRound empty 0 [] []) (.filling 0 [10] 0)
      (racedRound one 0 [] []) {.filling 0 [10] 1} := .wrote (by decide) rfl
  have stored : MempoolMoves id (racedRound one 0 [] []) (.filling 0 [10] 1)
      (racedRound one 0x100000000 [10] []) {.producer} := .stored
  have loadedAgain : MempoolMoves id (racedRound one 0x100000000 [10] []) .producer
      (racedRound one 0x100000000 [10] []) {.filling 0x100000000 [20] 0} := .loaded [20]
  have took : MempoolMoves id (racedRound one 0x100000000 [10] []) .workers
      (racedRound one (0x100000000 + 1) [10] [none])
      (.workers ::ₘ {.taking (consumedIdx 0x100000000) 0}) := .claimed ready
  have returned : MempoolMoves id (racedRound one (0x100000000 + 1) [10] [none]) (.taking 0 0)
      (racedRound again (0x100000000 + 1) [10] [some 10]) 0 := .took
  have wroteAgain : MempoolMoves id (racedRound again (0x100000000 + 1) [10] [some 10])
      (.filling 0x100000000 [20] 0) (racedRound two (0x100000000 + 1) [10] [some 10])
      {.filling 0x100000000 [20] 1} := .wrote (by decide) rfl
  have storedAgain : MempoolMoves id (racedRound two (0x100000000 + 1) [10] [some 10])
      (.filling 0x100000000 [20] 1) (racedRound two 0x200000000 [10, 20] [some 10])
      {.producer} := .stored
  have tookAgain : MempoolMoves id (racedRound two 0x200000000 [10, 20] [some 10]) .workers
      (racedRound two (0x200000000 + 1) [10, 20] [some 10, none])
      (.workers ::ₘ {.taking (consumedIdx 0x200000000) 1}) := .claimed repeated
  have returnedAgain : MempoolMoves id (racedRound two (0x200000000 + 1) [10, 20] [some 10, none])
      (.taking 0 1) (racedRound (Function.update two 0 10) (0x200000000 + 1) [10, 20]
        [some 10, some 10]) 0 := .took
  rw [first] at took
  rw [same] at tookAgain
  have run : Run (Threads.Step (MempoolMoves id)) mempoolPool
      [.producer, .filling 0 [10] 0, .filling 0 [10] 1, .producer, .workers, .taking 0 0,
        .filling 0x100000000 [20] 0, .filling 0x100000000 [20] 1, .workers, .taking 0 1]
      ⟨racedRound (Function.update two 0 10) (0x200000000 + 1) [10, 20] [some 10, some 10],
        .workers ::ₘ {.producer}⟩ := by
    apply Run.cons (Threads.Step.move {.workers} loaded)
    apply Run.cons (Threads.Step.move {.workers} wrote)
    apply Run.cons (Threads.Step.move {.workers} stored)
    apply Run.cons (Threads.Step.move {.workers} loadedAgain)
    rw [Multiset.singleton_add, workers_first]
    apply Run.cons (Threads.Step.move {.filling 0x100000000 [20] 0} took)
    rw [Multiset.cons_add, Multiset.singleton_add, Multiset.cons_swap]
    apply Run.cons (Threads.Step.move (.workers ::ₘ {.filling 0x100000000 [20] 0}) returned)
    rw [Multiset.zero_add, ← workers_first]
    apply Run.cons (Threads.Step.move {.workers} wroteAgain)
    apply Run.cons (Threads.Step.move {.workers} storedAgain)
    rw [Multiset.singleton_add, workers_first]
    apply Run.cons (Threads.Step.move {.producer} tookAgain)
    rw [Multiset.cons_add, Multiset.singleton_add, Multiset.cons_swap]
    apply Run.cons (Threads.Step.move (.workers ::ₘ {.producer}) returnedAgain)
    rw [Multiset.zero_add]
    exact Run.nil _
  have ordered := (claimed _ _ run).ordered 1 10 rfl
  cases ordered

end Scs
