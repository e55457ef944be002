import Scs.HashSet.AtomicSetSteps
import Scs.Object.RevertableObject
import Scs.Threadlocal.Allocator

/-!
# Concurrent pushes and reverts of `HASH_SET_INSERT`

Any number of pushes on one object within a round, each committed or reverted by
its caller, or left open. One move is one access of the element counter or of the
hash table; the base object may change in any way. A revert gives its count back
before it erases its entry.
-/

namespace Scs

set_option autoImplicit false

open OpenAddressing Runs Threads

inductive PushTask where
  | sets (h : HashSetEntry)
  | compares (h : HashSetEntry)
  | counts (h : HashSetEntry)
  | overfull (h : HashSetEntry)
  | inTable (task : SetTask)
  | fallsBack (h : HashSetEntry)
  | granted (h : HashSetEntry)
  | committed (h : HashSetEntry)
  | releases

/-- Where a push goes on when its call on the table has come to `task`. -/
def PushTask.resumes : SetTask → PushTask
  | .refused h => .fallsBack h
  | .inserted h => .granted h
  | task => .inTable task

inductive PushMoves (cryptoShorthash : CryptoShorthash) : Threads.Moves RevertableObject PushTask
  -- `try_add_delta`
  | setTurns {object : RevertableObject} {h : HashSetEntry} (baseObj : RevertableBaseObject) :
      PushMoves cryptoShorthash object (.sets h) { object with baseObj := baseObj } {.sets h}
  | setRefused {object : RevertableObject} {h : HashSetEntry} (baseObj : RevertableBaseObject) :
      PushMoves cryptoShorthash object (.sets h) { object with baseObj := baseObj } 0
  | setGranted {object : RevertableObject} {h : HashSetEntry} (baseObj : RevertableBaseObject) :
      PushMoves cryptoShorthash object (.sets h) { object with baseObj := baseObj } {.compares h}
  | present {object : RevertableObject} {h : HashSetEntry} {hashes : List HashSetEntry}
      {maxSize : UInt32} (read : object.committedHashes = .ok (hashes, maxSize))
      (member : h ∈ hashes) :
      PushMoves cryptoShorthash object (.compares h) object {.releases}
  | absent {object : RevertableObject} {h : HashSetEntry} {hashes : List HashSetEntry}
      {maxSize : UInt32} (read : object.committedHashes = .ok (hashes, maxSize))
      (absent : h ∉ hashes) :
      PushMoves cryptoShorthash object (.compares h) object {.counts h}
  | exceeds {object : RevertableObject} {h : HashSetEntry} {hashes : List HashSetEntry}
      {maxSize : UInt32} (read : object.committedHashes = .ok (hashes, maxSize))
      (tooMany : hashes.length + (object.numNewElts + 1).toNat > maxSize.toNat) :
      PushMoves cryptoShorthash object (.counts h)
        { object with numNewElts := object.numNewElts + 1 } {.overfull h}
  | reserves {object : RevertableObject} {h : HashSetEntry} {hashes : List HashSetEntry}
      {maxSize : UInt32} (read : object.committedHashes = .ok (hashes, maxSize))
      (fits : ¬ hashes.length + (object.numNewElts + 1).toNat > maxSize.toNat) :
      PushMoves cryptoShorthash object (.counts h)
        { object with numNewElts := object.numNewElts + 1 } {.inTable (.insertStarts h)}
  | givesUp {object : RevertableObject} {h : HashSetEntry} :
      PushMoves cryptoShorthash object (.overfull h)
        { object with numNewElts := object.numNewElts - 1 } {.releases}
  | fallsBack {object : RevertableObject} {h : HashSetEntry} :
      PushMoves cryptoShorthash object (.fallsBack h)
        { object with numNewElts := object.numNewElts - 1 } {.releases}
  -- `new_hashes.try_insert` and `new_hashes.erase`
  | tableGoes {object : RevertableObject} {task next : SetTask} {newHashes : AtomicSet}
      (moved : SetMoves cryptoShorthash object.newHashes task newHashes {next}) :
      PushMoves cryptoShorthash object (.inTable task) { object with newHashes := newHashes }
        {.resumes next}
  | tableEnds {object : RevertableObject} {task : SetTask} {newHashes : AtomicSet}
      (moved : SetMoves cryptoShorthash object.newHashes task newHashes 0) :
      PushMoves cryptoShorthash object (.inTable task) { object with newHashes := newHashes }
        {.releases}
  -- The rewind
  | commits {object : RevertableObject} {h : HashSetEntry} (baseObj : RevertableBaseObject) :
      PushMoves cryptoShorthash object (.granted h) { object with baseObj := baseObj }
        {.committed h}
  | reverts {object : RevertableObject} {h : HashSetEntry} :
      PushMoves cryptoShorthash object (.granted h)
        { object with numNewElts := object.numNewElts - 1 } {.inTable (.inserted h)}
  | releaseTurns {object : RevertableObject} (baseObj : RevertableBaseObject) :
      PushMoves cryptoShorthash object .releases { object with baseObj := baseObj } {.releases}
  | released {object : RevertableObject} (baseObj : RevertableBaseObject) :
      PushMoves cryptoShorthash object .releases { object with baseObj := baseObj } 0

abbrev PushPool := Pool RevertableObject PushTask

namespace PushTask

def table? : PushTask → Option SetTask
  | .inTable task => some task
  | .granted h => some (.inserted h)
  | .committed h => some (.inserted h)
  | _ => none

def reserved : PushTask → ℕ
  | .inTable (.insertStarts _) => 1
  | .inTable (.probing _ _) => 1
  | .inTable (.claiming _ _) => 1
  | .inTable (.counting _) => 1
  | .fallsBack _ => 1
  | .granted _ => 1
  | .committed _ => 1
  | _ => 0

def beyond : PushTask → ℕ
  | .overfull _ => 1
  | _ => 0

def entered : PushTask → ℕ
  | .inTable (.counting _) => 1
  | .granted _ => 1
  | .committed _ => 1
  | _ => 0

def reverting : PushTask → ℕ
  | .inTable (.inserted _) => 1
  | .inTable (.erasing _ _) => 1
  | .inTable (.removing _ _) => 1
  | _ => 0

/-- Inside a call that has been granted the base value. -/
def running : PushTask → ℕ
  | .sets _ => 0
  | .granted _ => 0
  | .committed _ => 0
  | _ => 1

end PushTask

/-- A move after which no more calls are running than there can be threads. -/
def PushStep (cryptoShorthash : CryptoShorthash) (pool : PushPool) (label : PushTask)
    (next : PushPool) : Prop :=
  Threads.Step (PushMoves cryptoShorthash) pool label next ∧
    tally PushTask.running next.tasks ≤ tlcacheSize

def pushPool (object : RevertableObject) (hashes : Multiset HashSetEntry) : PushPool where
  shared := object
  tasks := hashes.map .sets

/-- An object at the start of a round on a hash set within its limit. -/
structure InsertRound (object : RevertableObject) (hashes : List HashSetEntry) (maxSize : UInt32) :
    Prop where
  read : object.committedHashes = .ok (hashes, maxSize)
  fits : hashes.length ≤ maxSize.toNat
  bounded : maxSize.toNat ≤ maxHashSetSize
  empty : ∃ capacity, object.newHashes = .vacant capacity
  uncounted : object.numNewElts = 0

def tableTasks (tasks : Multiset PushTask) : Multiset SetTask := tasks.filterMap PushTask.table?

section Tasks

variable {task next : PushTask} {rest : Multiset PushTask}

theorem table_tasks_none (apart : task.table? = none) :
    tableTasks (task ::ₘ rest) = tableTasks rest :=
  Multiset.filterMap_cons_none _ _ apart

theorem table_tasks_some {one : SetTask} (known : task.table? = some one) :
    tableTasks (task ::ₘ rest) = one ::ₘ tableTasks rest :=
  Multiset.filterMap_cons_some _ _ _ known

theorem table_tasks_same (same : next.table? = task.table?) :
    tableTasks ({next} + rest) = tableTasks (task ::ₘ rest) := by
  rw [Multiset.singleton_add]
  cases known : task.table? with
  | none => rw [table_tasks_none known, table_tasks_none (same.trans known)]
  | some one => rw [table_tasks_some known, table_tasks_some (same.trans known)]

theorem beyond_le_running (tasks : Multiset PushTask) :
    tally PushTask.beyond tasks ≤ tally PushTask.running tasks := by
  apply tally_le
  intro task
  cases task <;> simp only [PushTask.beyond, PushTask.running, Nat.le_refl, Nat.zero_le]

theorem entered_le_reserved (tasks : Multiset PushTask) :
    tally PushTask.entered tasks ≤ tally PushTask.reserved tasks := by
  apply tally_le
  intro task
  cases task with
  | inTable task =>
      cases task <;> simp only [PushTask.entered, PushTask.reserved, Nat.le_refl, Nat.zero_le]
  | _ => simp only [PushTask.entered, PushTask.reserved, Nat.le_refl, Nat.zero_le]

theorem held_card_some {one : SetTask} {h : HashSetEntry} (known : task.table? = some one)
    (held : one.held? = some h) :
    (heldEntries (tableTasks (task ::ₘ rest))).card = 1 + (heldEntries (tableTasks rest)).card := by
  rw [table_tasks_some known, held_entries_cons, held_entries_single held, Multiset.card_add,
    Multiset.card_singleton]

theorem held_card_none {one : SetTask} (known : task.table? = some one)
    (free : one.held? = none) :
    (heldEntries (tableTasks (task ::ₘ rest))).card = (heldEntries (tableTasks rest)).card := by
  rw [table_tasks_some known, held_entries_cons, held_entries_none free, Multiset.zero_add]

/-- The table holds the entries of the pushes that entered it and were not
reverted, and of those that are being reverted. -/
theorem held_card_eq (tasks : Multiset PushTask) :
    (heldEntries (tableTasks tasks)).card =
      tally PushTask.entered tasks + tally PushTask.reverting tasks := by
  induction tasks using Multiset.induction_on with
  | empty => rfl
  | cons task rest induction =>
      rw [tally_cons, tally_cons]
      cases task with
      | granted h =>
          rw [held_card_some rfl rfl, induction]
          simp only [PushTask.entered, PushTask.reverting]
          omega
      | committed h =>
          rw [held_card_some rfl rfl, induction]
          simp only [PushTask.entered, PushTask.reverting]
          omega
      | inTable task =>
          cases task with
          | counting h =>
              rw [held_card_some rfl rfl, induction]
              simp only [PushTask.entered, PushTask.reverting]
              omega
          | inserted h =>
              rw [held_card_some rfl rfl, induction]
              simp only [PushTask.entered, PushTask.reverting]
              omega
          | erasing h idx =>
              rw [held_card_some rfl rfl, induction]
              simp only [PushTask.entered, PushTask.reverting]
              omega
          | removing h idx =>
              rw [held_card_some rfl rfl, induction]
              simp only [PushTask.entered, PushTask.reverting]
              omega
          | _ =>
              rw [held_card_none rfl rfl, induction]
              simp only [PushTask.entered, PushTask.reverting, Nat.zero_add]
      | _ =>
          rw [table_tasks_none rfl, induction]
          simp only [PushTask.entered, PushTask.reverting, Nat.zero_add]

end Tasks

section Pushes

variable {cryptoShorthash : CryptoShorthash} {object after : RevertableObject}
  {hashes : List HashSetEntry} {maxSize : UInt32} {task next : PushTask}
  {rest left : Multiset PushTask}

/-- The counter counts every push that took a count, and those within the limit
are within it. -/
structure PushInvariant (cryptoShorthash : CryptoShorthash) (hashes : List HashSetEntry)
    (maxSize : UInt32) (object : RevertableObject) (tasks : Multiset PushTask) : Prop where
  read : object.committedHashes = .ok (hashes, maxSize)
  table : TableInvariant cryptoShorthash object.newHashes (tableTasks tasks)
  counted : object.numNewElts.toNat =
    tally PushTask.reserved tasks + tally PushTask.beyond tasks
  within : hashes.length + tally PushTask.reserved tasks ≤ maxSize.toNat

theorem PushInvariant.goes_on
    (kept : PushInvariant cryptoShorthash hashes maxSize object (task ::ₘ rest))
    (baseObj : RevertableBaseObject) (same : next.table? = task.table?)
    (reserved : next.reserved = task.reserved) (beyond : next.beyond = task.beyond) :
    PushInvariant cryptoShorthash hashes maxSize { object with baseObj := baseObj }
      ({next} + rest) where
  read := kept.read
  table := by
    rw [table_tasks_same same]
    exact kept.table
  counted := by
    have counted := kept.counted
    rw [tally_cons, tally_cons] at counted
    rw [tally_add, tally_add, tally_singleton, tally_singleton, reserved, beyond]
    exact counted
  within := by
    have within := kept.within
    rw [tally_cons] at within
    rw [tally_add, tally_singleton, reserved]
    exact within

theorem PushInvariant.ends
    (kept : PushInvariant cryptoShorthash hashes maxSize object (task ::ₘ rest))
    (baseObj : RevertableBaseObject) (apart : task.table? = none)
    (reserved : task.reserved = 0) (beyond : task.beyond = 0) :
    PushInvariant cryptoShorthash hashes maxSize { object with baseObj := baseObj }
      (0 + rest) := by
  obtain ⟨read, table, counted, within⟩ := kept
  rw [table_tasks_none apart] at table
  rw [tally_cons, tally_cons, reserved, beyond, Nat.zero_add, Nat.zero_add] at counted
  rw [tally_cons, reserved, Nat.zero_add] at within
  rw [Multiset.zero_add]
  exact ⟨read, table, counted, within⟩

/-- A count that is taken: no more calls run than there are threads, so the
counter does not wrap. -/
theorem PushInvariant.takes {h : HashSetEntry}
    (kept : PushInvariant cryptoShorthash hashes maxSize object (.counts h ::ₘ rest))
    (bounded : maxSize.toNat ≤ maxHashSetSize)
    (threads : tally PushTask.running rest ≤ tlcacheSize) :
    (object.numNewElts + 1).toNat =
      tally PushTask.reserved rest + tally PushTask.beyond rest + 1 := by
  have counted := kept.counted
  have within := kept.within
  have beyond := beyond_le_running rest
  have one : (1 : UInt32).toNat = 1 := rfl
  rw [tally_cons, tally_cons] at counted
  rw [tally_cons] at within
  simp only [PushTask.reserved, PushTask.beyond, Nat.zero_add] at counted within
  rw [UInt32.toNat_add, one]
  unfold tlcacheSize at threads
  unfold maxHashSetSize at bounded
  omega

theorem PushInvariant.gives
    (kept : PushInvariant cryptoShorthash hashes maxSize object (task ::ₘ rest))
    (held : task.reserved + task.beyond = 1) :
    (object.numNewElts - 1).toNat =
      tally PushTask.reserved rest + tally PushTask.beyond rest := by
  have counted := kept.counted
  have bounded := object.numNewElts.toNat_lt
  have one : (1 : UInt32).toNat = 1 := rfl
  rw [tally_cons, tally_cons] at counted
  rw [UInt32.toNat_sub, one]
  omega

theorem PushInvariant.recounts {count : UInt32}
    (kept : PushInvariant cryptoShorthash hashes maxSize object (task ::ₘ rest))
    (table : TableInvariant cryptoShorthash object.newHashes (tableTasks ({next} + rest)))
    (counted : count.toNat = next.reserved + next.beyond +
      (tally PushTask.reserved rest + tally PushTask.beyond rest))
    (within : hashes.length + (next.reserved + tally PushTask.reserved rest) ≤ maxSize.toNat) :
    PushInvariant cryptoShorthash hashes maxSize { object with numNewElts := count }
      ({next} + rest) where
  read := kept.read
  table := table
  counted := by
    rw [tally_add, tally_add, tally_singleton, tally_singleton]
    change count.toNat = _
    omega
  within := by
    rw [tally_add, tally_singleton]
    exact within

theorem PushInvariant.table_kept
    (kept : PushInvariant cryptoShorthash hashes maxSize object (task ::ₘ rest))
    (same : next.table? = task.table?) :
    TableInvariant cryptoShorthash object.newHashes (tableTasks ({next} + rest)) := by
  rw [table_tasks_same same]
  exact kept.table

theorem PushInvariant.rest_within
    (kept : PushInvariant cryptoShorthash hashes maxSize object (task ::ₘ rest)) :
    hashes.length + tally PushTask.reserved rest ≤ maxSize.toNat := by
  have within := kept.within
  rw [tally_cons] at within
  omega

/-- A count that is given back ends a push or begins to erase it. The entry of an erased
push is still in the table for a moment, which is where the count and the table differ. -/
theorem PushInvariant.releases
    (kept : PushInvariant cryptoShorthash hashes maxSize object (task ::ₘ rest))
    (held : task.reserved + task.beyond = 1) (same : next.table? = task.table?)
    (reserved : next.reserved = 0) (beyond : next.beyond = 0) :
    PushInvariant cryptoShorthash hashes maxSize
      { object with numNewElts := object.numNewElts - 1 } ({next} + rest) := by
  apply kept.recounts (kept.table_kept same)
  · rw [kept.gives held, reserved, beyond]
    omega
  · rw [reserved, Nat.zero_add]
    exact kept.rest_within

theorem resumes_weights {set newHashes : AtomicSet} {task next : SetTask}
    (moved : SetMoves cryptoShorthash set task newHashes {next}) :
    (PushTask.resumes next).reserved = (PushTask.inTable task).reserved ∧
      (PushTask.resumes next).beyond = 0 := by
  generalize same : ({next} : Multiset SetTask) = left at moved
  cases moved with
  | discounts => exact absurd same (Multiset.singleton_ne_zero _)
  | _ =>
      cases Multiset.singleton_inj.mp same
      exact ⟨rfl, rfl⟩

theorem ends_discounting {set newHashes : AtomicSet} {task : SetTask}
    (moved : SetMoves cryptoShorthash set task newHashes 0) : ∃ h, task = .discounting h := by
  generalize same : (0 : Multiset SetTask) = left at moved
  cases moved with
  | discounts => exact ⟨_, rfl⟩
  | _ => exact absurd same.symm (Multiset.singleton_ne_zero _)

theorem resumes_table {set : AtomicSet} {next : SetTask}
    (table : TableInvariant cryptoShorthash set ({next} + tableTasks rest)) :
    TableInvariant cryptoShorthash set (tableTasks ({.resumes next} + rest)) := by
  rw [Multiset.singleton_add] at table ⊢
  cases next with
  | refused h =>
      rw [table_tasks_none rfl]
      exact (table_apart_iff refused_apart).mp table
  | _ =>
      rw [table_tasks_some rfl]
      exact table

theorem PushInvariant.move
    (kept : PushInvariant cryptoShorthash hashes maxSize object (task ::ₘ rest))
    (bounded : maxSize.toNat ≤ maxHashSetSize)
    (moved : PushMoves cryptoShorthash object task after left)
    (threads : tally PushTask.running (left + rest) ≤ tlcacheSize) :
    PushInvariant cryptoShorthash hashes maxSize after (left + rest) := by
  cases moved with
  | setTurns baseObj => exact kept.goes_on baseObj rfl rfl rfl
  | setRefused baseObj => exact kept.ends baseObj rfl rfl rfl
  | setGranted baseObj => exact kept.goes_on baseObj rfl rfl rfl
  | present read member => exact kept.goes_on object.baseObj rfl rfl rfl
  | absent read absent => exact kept.goes_on object.baseObj rfl rfl rfl
  | commits baseObj => exact kept.goes_on baseObj rfl rfl rfl
  | releaseTurns baseObj => exact kept.goes_on baseObj rfl rfl rfl
  | released baseObj => exact kept.ends baseObj rfl rfl rfl
  | givesUp => exact kept.releases rfl rfl rfl rfl
  | fallsBack => exact kept.releases rfl rfl rfl rfl
  | reverts => exact kept.releases rfl rfl rfl rfl
  | exceeds read tooMany =>
      have fewer : tally PushTask.running rest ≤ tlcacheSize := by
        rw [tally_add] at threads
        exact (Nat.le_add_left _ _).trans threads
      refine kept.recounts (kept.table_kept rfl) ?_ ?_
      · rw [kept.takes bounded fewer]
        simp only [PushTask.reserved, PushTask.beyond]
        omega
      · simp only [PushTask.reserved, Nat.zero_add]
        exact kept.rest_within
  | reserves read fits =>
      have fewer : tally PushTask.running rest ≤ tlcacheSize := by
        rw [tally_add] at threads
        exact (Nat.le_add_left _ _).trans threads
      have taken := kept.takes bounded fewer
      rw [kept.read] at read
      cases read
      refine kept.recounts ?_ ?_ ?_
      · have table := kept.table
        rw [table_tasks_none rfl] at table
        rw [Multiset.singleton_add, table_tasks_some rfl]
        exact (table_apart_iff insert_starts_apart).mpr table
      · rw [taken]
        simp only [PushTask.reserved, PushTask.beyond]
        omega
      · simp only [PushTask.reserved]
        omega
  | tableGoes moved =>
      obtain ⟨read, table, counted, within⟩ := kept
      obtain ⟨reserved, beyond⟩ := resumes_weights moved
      rw [table_tasks_some rfl] at table
      have moves := table.move moved
      rw [tally_cons, tally_cons, ← reserved] at counted
      rw [tally_cons, ← reserved] at within
      refine ⟨read, resumes_table moves, ?_, ?_⟩
      · rw [tally_add, tally_add, tally_singleton, tally_singleton, beyond]
        exact counted
      · rw [tally_add, tally_singleton]
        exact within
  | tableEnds moved =>
      obtain ⟨h, rfl⟩ := ends_discounting moved
      obtain ⟨read, table, counted, within⟩ := kept
      rw [table_tasks_some rfl] at table
      have moves := table.move moved
      rw [tally_cons, tally_cons] at counted
      rw [tally_cons] at within
      refine ⟨read, ?_, ?_, ?_⟩
      · rw [Multiset.singleton_add, table_tasks_none rfl, ← Multiset.zero_add (tableTasks rest)]
        exact moves
      · rw [tally_add, tally_add, tally_singleton, tally_singleton]
        exact counted
      · rw [tally_add, tally_singleton]
        exact within

theorem push_pool_kept {starting : Multiset HashSetEntry}
    (round : InsertRound object hashes maxSize) :
    PushInvariant cryptoShorthash hashes maxSize (pushPool object starting).shared
      (pushPool object starting).tasks := by
  obtain ⟨read, fits, bounded, ⟨capacity, empty⟩, uncounted⟩ := round
  unfold pushPool
  induction starting using Multiset.induction_on with
  | empty =>
      refine ⟨read, ?_, ?_, fits⟩
      · rw [empty]
        exact table_vacant capacity
      · rw [uncounted]
        rfl
  | cons h rest induction =>
      obtain ⟨-, table, counted, within⟩ := induction
      rw [Multiset.map_cons]
      refine ⟨read, ?_, ?_, ?_⟩
      · rw [table_tasks_none rfl]
        exact table
      · rw [tally_cons, tally_cons]
        simp only [PushTask.reserved, PushTask.beyond, Nat.zero_add]
        exact counted
      · rw [tally_cons]
        simp only [PushTask.reserved, Nat.zero_add]
        exact within

theorem PushInvariant.run {start final : PushPool} {labels : List PushTask}
    (kept : PushInvariant cryptoShorthash hashes maxSize start.shared start.tasks)
    (bounded : maxSize.toNat ≤ maxHashSetSize)
    (run : Run (PushStep cryptoShorthash) start labels final) :
    PushInvariant cryptoShorthash hashes maxSize final.shared final.tasks := by
  apply run_invariant (fun pool =>
    PushInvariant cryptoShorthash hashes maxSize pool.shared pool.tasks) _ kept run
  rintro pool label next kept ⟨step, threads⟩
  cases step with
  | move rest moved => exact kept.move bounded moved threads

end Pushes

theorem insert_round_fresh : InsertRound .fresh [] startHashSetSize where
  read := rfl
  fits := Nat.zero_le _
  bounded := by decide
  empty := ⟨_, rfl⟩
  uncounted := rfl

theorem insert_round_committed {set : HashSet} (fee : UInt64)
    (fits : set.hashes.length ≤ set.maxSize.toNat)
    (bounded : set.maxSize.toNat ≤ maxHashSetSize) :
    InsertRound (.ofCommitted { body := .hashSet set, escrowedFee := fee }) set.hashes
      set.maxSize where
  read := rfl
  fits := fits
  bounded := bounded
  empty := by
    unfold RevertableObject.ofCommitted AtomicSet.resize
    simp only
    split_ifs
    · exact ⟨_, rfl⟩
    · exact ⟨_, rfl⟩
  uncounted := rfl

/-- Concurrent calls on a table are linearizable, on its own and inside an object.
The committed entries and those of pushes that are not being reverted stay within
the limit; the table exceeds it by the entries that are being reverted at most. -/
theorem hash_inserts_linearize (cryptoShorthash : CryptoShorthash) :
    (∀ capacity hashes labels pool,
      Run (Threads.Step (SetMoves cryptoShorthash)) (setPool capacity hashes) labels pool →
        Linearized cryptoShorthash pool) ∧
    ∀ object hashes maxSize, InsertRound object hashes maxSize → ∀ pushes labels pool,
      Run (PushStep cryptoShorthash) (pushPool object pushes) labels pool →
        Linearized cryptoShorthash ⟨pool.shared.newHashes, tableTasks pool.tasks⟩ ∧
        hashes.length + tally PushTask.entered pool.tasks ≤ maxSize.toNat ∧
        hashes.length + pool.shared.newHashes.getHashes.length ≤
          maxSize.toNat + tally PushTask.reverting pool.tasks := by
  constructor
  · intro capacity hashes labels pool run
    exact table_linearized (table_run (set_pool_table cryptoShorthash capacity hashes) run)
  · intro object hashes maxSize round pushes labels pool run
    have kept := (push_pool_kept round).run round.bounded run
    have entered := entered_le_reserved pool.tasks
    have within := kept.within
    have cards := congrArg Multiset.card kept.table.contents
    rw [Multiset.coe_card, held_card_eq] at cards
    refine ⟨table_linearized kept.table, ?_, ?_⟩
    · omega
    · omega

/-! ## A push during a revert -/

section Granted

variable {cryptoShorthash : CryptoShorthash} {object : RevertableObject} {h : HashSetEntry}
  {hashes : List HashSetEntry} {maxSize : UInt32} {rest : Multiset PushTask}

/-- The object after an undisturbed push into the first slot of its scan. -/
def pushed (cryptoShorthash : CryptoShorthash) (h : HashSetEntry) (object : RevertableObject) :
    RevertableObject :=
  { object with
    numNewElts := object.numNewElts + 1
    newHashes :=
      { object.newHashes.writeSlot (object.newHashes.startIdx cryptoShorthash h) (.entry h)
          object.newHashes.numFilledSlots with
        numFilledSlots := object.newHashes.numFilledSlots + 1 } }

theorem push_step {after : RevertableObject} {task next : PushTask}
    (few : tally PushTask.running rest < tlcacheSize)
    (moved : PushMoves cryptoShorthash object task after {next}) :
    PushStep cryptoShorthash ⟨object, task ::ₘ rest⟩ task ⟨after, next ::ₘ rest⟩ := by
  have one : next.running ≤ 1 := by
    cases next <;> simp [PushTask.running]
  rw [← Multiset.singleton_add next]
  refine ⟨.move rest moved, ?_⟩
  rw [tally_add, tally_singleton]
  omega

theorem push_ends {after : RevertableObject} {task : PushTask}
    (few : tally PushTask.running rest < tlcacheSize)
    (moved : PushMoves cryptoShorthash object task after 0) :
    PushStep cryptoShorthash ⟨object, task ::ₘ rest⟩ task ⟨after, rest⟩ := by
  have step := Threads.Step.move rest moved
  rw [Multiset.zero_add] at step
  exact ⟨step, Nat.le_of_lt few⟩

theorem push_claims {idx : ℕ} (read : object.committedHashes = .ok (hashes, maxSize))
    (absent : h ∉ hashes) (fits : ¬ hashes.length + (object.numNewElts + 1).toNat > maxSize.toNat)
    (room : ¬ object.newHashes.numFilledSlots ≥ object.newHashes.capacity)
    (first : object.newHashes.startIdx cryptoShorthash h = idx)
    (vacant : object.newHashes.array[idx]? = some .empty)
    (few : tally PushTask.running rest < tlcacheSize) :
    ∃ labels, Run (PushStep cryptoShorthash) ⟨object, .sets h ::ₘ rest⟩ labels
      ⟨{ object with numNewElts := object.numNewElts + 1 },
        .inTable (.claiming h idx) ::ₘ rest⟩ := by
  subst first
  exact ⟨_, .cons (push_step few (.setGranted object.baseObj))
    (.cons (push_step few (.absent read absent))
      (.cons (push_step few (.reserves read fits))
        (.cons (push_step few (.tableGoes (.starts room)))
          (.cons (push_step few (.tableGoes (.meetsEmpty vacant))) (.nil _)))))⟩

def RevertableObject.claimed (h : HashSetEntry) (idx : ℕ) (object : RevertableObject) :
    RevertableObject :=
  { object with
    newHashes :=
      { object.newHashes.writeSlot idx (.entry h) object.newHashes.numFilledSlots with
        numFilledSlots := object.newHashes.numFilledSlots + 1 } }

theorem claim_granted {idx : ℕ} (vacant : object.newHashes.array[idx]? = some .empty)
    (few : tally PushTask.running rest < tlcacheSize) :
    ∃ labels, Run (PushStep cryptoShorthash) ⟨object, .inTable (.claiming h idx) ::ₘ rest⟩ labels
      ⟨object.claimed h idx, .granted h ::ₘ rest⟩ :=
  ⟨_, .cons (push_step few (.tableGoes (.claims vacant)))
    (.cons (push_step few (.tableGoes .counts)) (.nil _))⟩

theorem push_granted (read : object.committedHashes = .ok (hashes, maxSize)) (absent : h ∉ hashes)
    (fits : ¬ hashes.length + (object.numNewElts + 1).toNat > maxSize.toNat)
    (room : ¬ object.newHashes.numFilledSlots ≥ object.newHashes.capacity)
    (vacant : object.newHashes.array[object.newHashes.startIdx cryptoShorthash h]? = some .empty)
    (few : tally PushTask.running rest < tlcacheSize) :
    ∃ labels, Run (PushStep cryptoShorthash) ⟨object, .sets h ::ₘ rest⟩ labels
      ⟨pushed cryptoShorthash h object, .granted h ::ₘ rest⟩ := by
  obtain ⟨labels, claims⟩ := push_claims read absent fits room rfl vacant few
  -- the increment of the counter leaves the slots as they were
  have vacant' : ({ object with numNewElts := object.numNewElts + 1 } :
      RevertableObject).newHashes.array[object.newHashes.startIdx cryptoShorthash h]? =
        some .empty := vacant
  obtain ⟨others, counts⟩ := claim_granted vacant' few
  exact ⟨_, run_append claims counts⟩

/-- A slot that another push has taken in the meantime is passed by. -/
theorem claim_moves_on {idx : ℕ} {slot : Slot HashSetEntry}
    (taken : object.newHashes.array[idx]? = some slot) (other : passable h slot)
    (more : nextIndex object.newHashes.capacity.toNat idx ≠
      object.newHashes.startIdx cryptoShorthash h)
    (vacant : object.newHashes.array[nextIndex object.newHashes.capacity.toNat idx]? =
      some .empty) (few : tally PushTask.running rest < tlcacheSize) :
    ∃ labels, Run (PushStep cryptoShorthash) ⟨object, .inTable (.claiming h idx) ::ₘ rest⟩ labels
      ⟨object,
        .inTable (.claiming h (nextIndex object.newHashes.capacity.toNat idx)) ::ₘ rest⟩ := by
  have lost : object.newHashes.array[idx]? ≠ some .empty := by
    rw [taken]
    exact fun same => other.1 (Option.some_inj.mp same)
  exact ⟨_, .cons (push_step few (.tableGoes (.claimFails lost)))
    (.cons (push_step few (.tableGoes (.passes taken other more)))
      (.cons (push_step few (.tableGoes (.meetsEmpty vacant))) (.nil _)))⟩

/-- The object after a revert of the entry in the first slot of its scan. -/
def RevertableObject.released (cryptoShorthash : CryptoShorthash) (h : HashSetEntry)
    (object : RevertableObject) : RevertableObject :=
  { object with
    numNewElts := object.numNewElts - 1
    newHashes :=
      { object.newHashes.writeSlot (object.newHashes.startIdx cryptoShorthash h) .tombstone
          object.newHashes.numFilledSlots with
        numFilledSlots := object.newHashes.numFilledSlots - 1 } }

theorem push_reverted
    (found : object.newHashes.array[object.newHashes.startIdx cryptoShorthash h]? =
      some (.entry h)) (few : tally PushTask.running rest < tlcacheSize) :
    ∃ labels, Run (PushStep cryptoShorthash) ⟨object, .granted h ::ₘ rest⟩ labels
      ⟨object.released cryptoShorthash h, rest⟩ :=
  ⟨_, .cons (push_step few .reverts)
    (.cons (push_step few (.tableGoes .erases))
      (.cons (push_step few (.tableGoes (.finds found)))
        (.cons (push_step few (.tableGoes (.removes found)))
          (.cons (push_step few (.tableEnds .discounts))
            (.cons (push_ends few (.released object.baseObj)) (.nil _))))))⟩

end Granted

/-- Both pushes have loaded the same empty slot before one of them takes it, and that
one is reverted once the other has found the next slot. -/
theorem hash_inserts_linearize_contended :
    ∃ object labels, Run (PushStep fun _ => 0) (pushPool .fresh {⟨0, 0⟩, ⟨0, 1⟩}) labels
        ⟨object, {.granted ⟨0, 1⟩}⟩ ∧
      object.newHashes.getHashes = [⟨0, 1⟩] ∧
      Linearized (fun _ => 0) ⟨object.newHashes, tableTasks {.granted ⟨0, 1⟩}⟩ ∧
      object.newHashes.getHashes.length ≤ startHashSetSize.toNat := by
  let first : HashSetEntry := ⟨0, 0⟩
  let second : HashSetEntry := ⟨0, 1⟩
  have few (task : PushTask) : tally PushTask.running {task} < tlcacheSize := by
    rw [tally_singleton]
    have one : task.running ≤ 1 := by cases task <;> simp [PushTask.running]
    unfold tlcacheSize
    omega
  have swapped (one other : PushTask) :
      (one ::ₘ {other} : Multiset PushTask) = other ::ₘ {one} := Multiset.pair_comm one other
  let reserved : RevertableObject :=
    { RevertableObject.fresh with numNewElts := RevertableObject.fresh.numNewElts + 1 }
  let both : RevertableObject := { reserved with numNewElts := reserved.numNewElts + 1 }
  have loads : ∃ labels, Run (PushStep fun _ => 0) ⟨.fresh, .sets first ::ₘ {.sets second}⟩ labels
      ⟨reserved, .inTable (.claiming first 0) ::ₘ {.sets second}⟩ := by
    have read : RevertableObject.fresh.committedHashes = .ok ([], startHashSetSize) := rfl
    refine push_claims read List.not_mem_nil ?_ ?_ ?_ ?_ (few _)
    all_goals decide
  have loadsToo : ∃ labels, Run (PushStep fun _ => 0)
      ⟨reserved, .sets second ::ₘ {.inTable (.claiming first 0)}⟩ labels
      ⟨both, .inTable (.claiming second 0) ::ₘ {.inTable (.claiming first 0)}⟩ := by
    have read : reserved.committedHashes = .ok ([], startHashSetSize) := rfl
    refine push_claims read List.not_mem_nil ?_ ?_ ?_ ?_ (few _)
    all_goals decide
  have takes : ∃ labels, Run (PushStep fun _ => 0)
      ⟨both, .inTable (.claiming first 0) ::ₘ {.inTable (.claiming second 0)}⟩ labels
      ⟨both.claimed first 0, .granted first ::ₘ {.inTable (.claiming second 0)}⟩ :=
    claim_granted (by decide) (few _)
  have goesOn : ∃ labels, Run (PushStep fun _ => 0)
      ⟨both.claimed first 0, .inTable (.claiming second 0) ::ₘ {.granted first}⟩ labels
      ⟨both.claimed first 0, .inTable (.claiming second 1) ::ₘ {.granted first}⟩ := by
    refine claim_moves_on rfl ⟨?_, ?_⟩ ?_ ?_ (few _)
    all_goals decide
  have takesNext : ∃ labels, Run (PushStep fun _ => 0)
      ⟨both.claimed first 0, .inTable (.claiming second 1) ::ₘ {.granted first}⟩ labels
      ⟨(both.claimed first 0).claimed second 1, .granted second ::ₘ {.granted first}⟩ :=
    claim_granted (by decide) (few _)
  have reverts : ∃ labels, Run (PushStep fun _ => 0)
      ⟨(both.claimed first 0).claimed second 1, .granted first ::ₘ {.granted second}⟩ labels
      ⟨((both.claimed first 0).claimed second 1).released (fun _ => 0) first,
        {.granted second}⟩ :=
    push_reverted (by decide) (few _)
  obtain ⟨_, loads⟩ := loads
  obtain ⟨_, loadsToo⟩ := loadsToo
  obtain ⟨_, takes⟩ := takes
  obtain ⟨_, goesOn⟩ := goesOn
  obtain ⟨_, takesNext⟩ := takesNext
  obtain ⟨_, reverts⟩ := reverts
  rw [swapped (.sets second), swapped (.inTable (.claiming second 0))] at loadsToo
  rw [swapped (.granted first)] at takes
  rw [swapped (.granted second)] at takesNext
  have run := run_append loads (run_append loadsToo (run_append takes (run_append goesOn
    (run_append takesNext reverts))))
  have linearized := (hash_inserts_linearize fun _ => 0).2 .fresh [] startHashSetSize
    insert_round_fresh {first, second} _ _ run
  have bound := linearized.2.2
  rw [List.length_nil, Nat.zero_add] at bound
  exact ⟨_, _, run, by decide, linearized.1, bound⟩

/-- With one place left in the set, a push is granted while a revert has given its
count back and not erased its entry: the table then holds one entry too many. -/
theorem revert_window_overfills :
    ∃ cryptoShorthash object hashes maxSize pushes labels pool,
      InsertRound object hashes maxSize ∧
      Run (PushStep cryptoShorthash) (pushPool object pushes) labels pool ∧
      maxSize.toNat < hashes.length + pool.shared.newHashes.getHashes.length := by
  let crowded : HashSet :=
    { hashes := (List.range 63).map fun index => ⟨0, UInt64.ofNat index⟩, maxSize := 64 }
  let cryptoShorthash : CryptoShorthash := fun hash => if hash = 0 then 0 else 0x80000000
  let object : RevertableObject :=
    .ofCommitted { body := .hashSet crowded, escrowedFee := 0 }
  let first : HashSetEntry := ⟨0, 63⟩
  let second : HashSetEntry := ⟨1, 0⟩
  let between : RevertableObject :=
    { pushed cryptoShorthash first object with
      numNewElts := (pushed cryptoShorthash first object).numNewElts - 1 }
  have few : tally PushTask.running {.sets second} < tlcacheSize := by
    rw [tally_singleton]
    unfold tlcacheSize
    decide
  have fewer : tally PushTask.running {.inTable (.inserted first)} < tlcacheSize := by
    rw [tally_singleton]
    unfold tlcacheSize
    decide
  have opened : ∃ labels, Run (PushStep cryptoShorthash) ⟨object, .sets first ::ₘ {.sets second}⟩
      labels ⟨pushed cryptoShorthash first object, .granted first ::ₘ {.sets second}⟩ :=
    push_granted rfl (by decide) (by decide) (by decide) (by decide) few
  have reverted : PushStep cryptoShorthash
      ⟨pushed cryptoShorthash first object, .granted first ::ₘ {.sets second}⟩ _
      ⟨between, .inTable (.inserted first) ::ₘ {.sets second}⟩ := push_step few .reverts
  have overtaken : ∃ labels, Run (PushStep cryptoShorthash)
      ⟨between, .sets second ::ₘ {.inTable (.inserted first)}⟩ labels
      ⟨pushed cryptoShorthash second between,
        .granted second ::ₘ {.inTable (.inserted first)}⟩ :=
    push_granted rfl (by decide) (by decide) (by decide) (by decide) fewer
  obtain ⟨labels, run⟩ := opened
  obtain ⟨others, later⟩ := overtaken
  have swapped : (PushTask.sets second ::ₘ {.inTable (.inserted first)} : Multiset PushTask) =
      .inTable (.inserted first) ::ₘ {.sets second} := Multiset.cons_swap _ _ _
  rw [swapped] at later
  refine ⟨cryptoShorthash, object, crowded.hashes, 64, {first, second}, _, _, ?_,
    run_append run (.cons reverted later), ?_⟩
  · exact insert_round_committed 0 (by decide) (by decide)
  · decide

end Scs
