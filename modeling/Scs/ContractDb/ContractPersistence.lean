import Scs.Library.Runs
import Scs.Threadlocal.Allocator
import Mathlib.Algebra.BigOperators.Fin
import Mathlib.Algebra.Order.Group.Multiset

/-!
# Saving the contracts of a block (`contract_db/contract_persistence.h`)

Threads log creations and deployments to buffers of their own. The end of a
block asks a background thread to save them, or drops them. The thread saves the
work item before it swaps the buffers into it.
-/

namespace Scs

set_option autoImplicit false

open Runs

structure ContractCreate where
  h : Hash
  unmeteredContract : Contract
  deriving DecidableEq, Repr

structure ContractDeploy where
  contractAddr : Address
  contractHash : Hash
  deriving DecidableEq, Repr

structure ContractRoundPersistence where
  creations : List ContractCreate
  deployments : List ContractDeploy
  deriving DecidableEq, Repr

def ContractRoundPersistence.empty : ContractRoundPersistence where
  creations := []
  deployments := []

abbrev ContractBuffers := Fin tlcacheSize → ContractRoundPersistence

structure AsyncPersistContracts where
  workItem : ContractBuffers
  cache : ContractBuffers
  workDone : Bool
  workTs : UInt32
  doneFlag : Bool

namespace AsyncPersistContracts

def start : AsyncPersistContracts where
  workItem _ := .empty
  cache _ := .empty
  workDone := true
  workTs := 0
  doneFlag := false

def existsWorkToDo (persist : AsyncPersistContracts) : Bool := !persist.workDone

/-- Each buffer goes to the work item, which is cleared before. -/
def swapData (persist : AsyncPersistContracts) : AsyncPersistContracts :=
  { persist with workItem := persist.cache, cache := fun _ => .empty }

def logDeploy (thread : Fin tlcacheSize) (contractAddr : Address) (contractHash : Hash)
    (persist : AsyncPersistContracts) : AsyncPersistContracts :=
  let own := persist.cache thread
  { persist with
    cache := Function.update persist.cache thread
      { own with deployments := own.deployments ++ [{ contractAddr, contractHash }] } }

def logCreate (thread : Fin tlcacheSize) (h : Hash) (unmeteredContract : Contract)
    (persist : AsyncPersistContracts) : AsyncPersistContracts :=
  let own := persist.cache thread
  { persist with
    cache := Function.update persist.cache thread
      { own with creations := own.creations ++ [{ h, unmeteredContract }] } }

def write (timestamp : UInt32) (persist : AsyncPersistContracts) : AsyncPersistContracts :=
  { persist with workDone := false, workTs := timestamp }

def nowrite (persist : AsyncPersistContracts) : AsyncPersistContracts :=
  { persist with workDone := true }.swapData

/-- One section of the background loop. What it saves before the swap is the work item. -/
def run (persist : AsyncPersistContracts) : AsyncPersistContracts :=
  if persist.doneFlag || !persist.existsWorkToDo then persist
  else { persist.swapData with workDone := true }

end AsyncPersistContracts

/-! ## Blocks -/

inductive ContractRecord where
  | create (create : ContractCreate)
  | deploy (deploy : ContractDeploy)
  deriving DecidableEq, Repr

def ContractRoundPersistence.records (buffer : ContractRoundPersistence) :
    Multiset ContractRecord :=
  (buffer.creations.map ContractRecord.create : Multiset ContractRecord) +
    (buffer.deployments.map ContractRecord.deploy : Multiset ContractRecord)

/-- The records in all buffers, as `save_data` goes through them. -/
def ContractBuffers.records (buffers : ContractBuffers) : Multiset ContractRecord :=
  ∑ thread, (buffers thread).records

/-- The object and its thread, what the block has logged so far, what was in the
live buffers when the block before it ended, the written blocks with what they
logged, and what was saved for each timestamp. -/
structure ContractPersistRound where
  persist : AsyncPersistContracts
  returned : Bool
  logged : Multiset ContractRecord
  heldBefore : Multiset ContractRecord
  written : List (UInt32 × Multiset ContractRecord)
  saved : List (UInt32 × Multiset ContractRecord)

inductive ContractSection where
  | logDeploy (thread : Fin tlcacheSize) (contractAddr : Address) (contractHash : Hash)
  | logCreate (thread : Fin tlcacheSize) (h : Hash) (unmeteredContract : Contract)
  | write (timestamp : UInt32)
  | nowrite
  | run
  | terminate

/-- One call to log, or one section under the mutex. The worker is idle when a
block ends; a file that cannot be written ends the process. -/
inductive ContractStep : ContractPersistRound → ContractSection → ContractPersistRound → Prop
  | deployed {round : ContractPersistRound} (thread : Fin tlcacheSize) (contractAddr : Address)
      (contractHash : Hash) :
      ContractStep round (.logDeploy thread contractAddr contractHash)
        { round with
          persist := round.persist.logDeploy thread contractAddr contractHash
          logged := .deploy { contractAddr, contractHash } ::ₘ round.logged }
  | created {round : ContractPersistRound} (thread : Fin tlcacheSize) (h : Hash)
      (unmeteredContract : Contract) :
      ContractStep round (.logCreate thread h unmeteredContract)
        { round with
          persist := round.persist.logCreate thread h unmeteredContract
          logged := .create { h, unmeteredContract } ::ₘ round.logged }
  | wrote {round : ContractPersistRound} (timestamp : UInt32)
      (idle : round.persist.existsWorkToDo = false) :
      ContractStep round (.write timestamp)
        { round with
          persist := round.persist.write timestamp
          logged := 0
          heldBefore := ContractBuffers.records round.persist.cache
          written := round.written ++ [(timestamp, round.logged)] }
  | dropped {round : ContractPersistRound} (idle : round.persist.existsWorkToDo = false) :
      ContractStep round .nowrite
        { round with
          persist := round.persist.nowrite
          logged := 0
          heldBefore := ContractBuffers.records round.persist.cache }
  | stopped {round : ContractPersistRound} (running : round.returned = false)
      (done : round.persist.doneFlag = true) :
      ContractStep round .run { round with returned := true }
  | waited {round : ContractPersistRound} (running : round.returned = false)
      (open_flag : round.persist.doneFlag = false)
      (noWork : round.persist.existsWorkToDo = false) :
      ContractStep round .run round
  | savedData {round : ContractPersistRound} (running : round.returned = false)
      (open_flag : round.persist.doneFlag = false)
      (work : round.persist.existsWorkToDo = true) :
      -- `save_data` comes before `swap_data`
      ContractStep round .run
        { round with
          persist := { round.persist.swapData with workDone := true }
          saved := round.saved ++
            [(round.persist.workTs, ContractBuffers.records round.persist.workItem)] }
  | terminated {round : ContractPersistRound} :
      ContractStep round .terminate
        { round with persist := { round.persist with doneFlag := true } }

def contractPersistStart : ContractPersistRound where
  persist := .start
  returned := false
  logged := 0
  heldBefore := 0
  written := []
  saved := []

/-- The data of every written block is saved under its timestamp, and no other. What the
last write asked for may still be pending. -/
def SavedAsWritten (round : ContractPersistRound) : Prop := round.saved = round.written

/-- A step that ends no written block whose live buffers differ from what they held
at the end of the block before. -/
def RepeatingStep (round : ContractPersistRound) (label : ContractSection)
    (next : ContractPersistRound) : Prop :=
  ContractStep round label next ∧
    ∀ timestamp, label = .write timestamp →
      ContractBuffers.records round.persist.cache = round.heldBefore

variable {round next : ContractPersistRound} {label : ContractSection}

/-! ## What the buffers hold -/

theorem records_empty : ContractBuffers.records (fun _ => .empty) = 0 := by
  apply Finset.sum_eq_zero
  intro thread _
  rfl

theorem records_update (buffers : ContractBuffers) (thread : Fin tlcacheSize)
    (record : ContractRecord) (buffer : ContractRoundPersistence)
    (longer : buffer.records = record ::ₘ (buffers thread).records) :
    ContractBuffers.records (Function.update buffers thread buffer) =
      record ::ₘ ContractBuffers.records buffers := by
  have others : ∑ other ∈ Finset.univ.erase thread,
      (Function.update buffers thread buffer other).records =
        ∑ other ∈ Finset.univ.erase thread, (buffers other).records := by
    apply Finset.sum_congr rfl
    intro other member
    rw [Function.update_of_ne (Finset.ne_of_mem_erase member)]
  unfold ContractBuffers.records
  rw [← Finset.add_sum_erase _ _ (Finset.mem_univ thread), others, Function.update_self, longer,
    Multiset.cons_add, Finset.add_sum_erase _ (fun other => (buffers other).records)
      (Finset.mem_univ thread)]

theorem records_log_deploy (thread : Fin tlcacheSize) (contractAddr : Address)
    (contractHash : Hash) (persist : AsyncPersistContracts) :
    ContractBuffers.records (persist.logDeploy thread contractAddr contractHash).cache =
      .deploy { contractAddr, contractHash } ::ₘ ContractBuffers.records persist.cache := by
  apply records_update
  simp only [ContractRoundPersistence.records, List.map_append, ← Multiset.coe_add]
  rw [← add_assoc, add_comm, List.map_singleton, Multiset.coe_singleton, Multiset.singleton_add]

theorem records_log_create (thread : Fin tlcacheSize) (h : Hash) (unmeteredContract : Contract)
    (persist : AsyncPersistContracts) :
    ContractBuffers.records (persist.logCreate thread h unmeteredContract).cache =
      .create { h, unmeteredContract } ::ₘ ContractBuffers.records persist.cache := by
  apply records_update
  simp only [ContractRoundPersistence.records, List.map_append, ← Multiset.coe_add]
  rw [List.map_singleton, Multiset.coe_singleton, add_right_comm, add_comm, Multiset.singleton_add]

/-! ## Blocks and saves -/

namespace ContractPersistRound

def asked (round : ContractPersistRound) : List (UInt32 × Multiset ContractRecord) :=
  if round.persist.existsWorkToDo then
    [(round.persist.workTs, ContractBuffers.records round.persist.workItem)]
  else []

/-- How many written blocks have other data saved, or about to be. It never falls, so a run
that ends without mismatches had none. -/
def mismatches (round : ContractPersistRound) : ℕ :=
  ((round.saved ++ round.asked).zip round.written).countP fun pair => pair.1 ≠ pair.2

end ContractPersistRound

/-- The data of a written block is in the work item or already saved. While the
thread is idle, the buffers and the work item hold what the block has logged and
what it found in the live buffers; else the live buffers hold it. -/
structure ContractPersistKept (round : ContractPersistRound) : Prop where
  paired : (round.saved ++ round.asked).length = round.written.length
  idle : round.persist.existsWorkToDo = false →
    ContractBuffers.records round.persist.workItem + ContractBuffers.records round.persist.cache =
      round.heldBefore + round.logged
  busy : round.persist.existsWorkToDo = true →
    ContractBuffers.records round.persist.cache = round.heldBefore + round.logged

theorem contract_persist_start_kept : ContractPersistKept contractPersistStart where
  paired := rfl
  idle _ := by
    have nothing := records_empty
    exact congrArg₂ (· + ·) nothing nothing
  busy impossible := by cases impossible

theorem asked_idle (idle : round.persist.existsWorkToDo = false) : round.asked = [] := by
  rw [ContractPersistRound.asked, idle]
  rfl

theorem asked_busy (work : round.persist.existsWorkToDo = true) :
    round.asked =
      [(round.persist.workTs, ContractBuffers.records round.persist.workItem)] := by
  rw [ContractPersistRound.asked, if_pos work]

theorem contract_step_kept (kept : ContractPersistKept round)
    (step : ContractStep round label next) : ContractPersistKept next := by
  obtain ⟨paired, idleHeld, busyHeld⟩ := kept
  cases step with
  | deployed thread contractAddr contractHash =>
      have longer := records_log_deploy thread contractAddr contractHash round.persist
      refine ⟨paired, ?_, ?_⟩
      · intro idle
        have held := idleHeld idle
        rw [longer, Multiset.add_cons, Multiset.add_cons, ← held]
        rfl
      · intro busy
        have held := busyHeld busy
        rw [longer, Multiset.add_cons, held]
  | created thread h unmeteredContract =>
      have longer := records_log_create thread h unmeteredContract round.persist
      refine ⟨paired, ?_, ?_⟩
      · intro idle
        have held := idleHeld idle
        rw [longer, Multiset.add_cons, Multiset.add_cons, ← held]
        rfl
      · intro busy
        have held := busyHeld busy
        rw [longer, Multiset.add_cons, held]
  | wrote timestamp idle =>
      rw [asked_idle idle, List.append_nil] at paired
      refine ⟨?_, (fun impossible => by cases impossible), ?_⟩
      · rw [List.length_append, List.length_append, paired]
        rfl
      · intro _
        exact (add_zero _).symm
  | dropped idle =>
      rw [asked_idle idle] at paired
      refine ⟨paired, ?_, (fun impossible => by cases impossible)⟩
      intro _
      exact congrArg _ records_empty
  | stopped | waited | terminated => exact ⟨paired, idleHeld, busyHeld⟩
  | savedData running open_flag work =>
      rw [asked_busy work] at paired
      refine ⟨?_, ?_, (fun impossible => by cases impossible)⟩
      · rw [asked_idle (by rfl), List.append_nil]
        exact paired
      · intro _
        have held := busyHeld work
        rw [← held]
        exact (congrArg _ records_empty).trans (add_zero _)

/-- A save is right if and only if the live buffers held, at the end of the block,
what they held at the end of the block before. -/
theorem item_matches_iff (kept : ContractPersistKept round)
    (idle : round.persist.existsWorkToDo = false) :
    ContractBuffers.records round.persist.workItem = round.logged ↔
      ContractBuffers.records round.persist.cache = round.heldBefore := by
  have held := kept.idle idle
  constructor
  · intro same
    rw [same, add_comm] at held
    exact add_right_cancel held
  · intro same
    rw [same, add_comm] at held
    exact add_left_cancel held

theorem mismatches_snoc {saved written : List (UInt32 × Multiset ContractRecord)}
    (paired : saved.length = written.length) (timestamp : UInt32)
    (item logged : Multiset ContractRecord) :
    (((saved ++ [(timestamp, item)]).zip (written ++ [(timestamp, logged)])).countP
        fun pair => pair.1 ≠ pair.2) =
      (saved.zip written).countP (fun pair => pair.1 ≠ pair.2) +
        if item = logged then 0 else 1 := by
  rw [List.zip_append paired, List.countP_append]
  by_cases same : item = logged <;> simp [same]

/-- Only the end of a written block can ask for other data than the block logged. -/
theorem mismatches_grow (kept : ContractPersistKept round)
    (step : ContractStep round label next) :
    round.mismatches ≤ next.mismatches ∧
      (next.mismatches = round.mismatches → RepeatingStep round label next) := by
  have taken := step
  cases step with
  | wrote timestamp idle =>
      have paired := kept.paired
      rw [asked_idle idle, List.append_nil] at paired
      have asks : ContractPersistRound.asked
          { round with
            persist := round.persist.write timestamp
            logged := 0
            heldBefore := ContractBuffers.records round.persist.cache
            written := round.written ++ [(timestamp, round.logged)] } =
          [(timestamp, ContractBuffers.records round.persist.workItem)] := rfl
      simp only [ContractPersistRound.mismatches, asks, mismatches_snoc paired, asked_idle idle,
        List.append_nil]
      constructor
      · exact Nat.le_add_right _ _
      · intro same
        have matching : ContractBuffers.records round.persist.workItem = round.logged := by
          by_contra differs
          rw [if_neg differs] at same
          exact absurd same (Nat.succ_ne_self _)
        refine ⟨taken, ?_⟩
        intro _ _
        exact (item_matches_iff kept idle).mp matching
  | savedData running open_flag work =>
      have same : (round.saved ++
          [(round.persist.workTs, ContractBuffers.records round.persist.workItem)]) ++ [] =
            round.saved ++ round.asked := by
        rw [asked_busy work, List.append_nil]
      refine ⟨?_, fun _ => ⟨taken, ?_⟩⟩
      · unfold ContractPersistRound.mismatches
        rw [← same]
        exact le_refl _
      · intro _ impossible
        cases impossible
  | dropped idle =>
      refine ⟨?_, fun _ => ⟨taken, ?_⟩⟩
      · unfold ContractPersistRound.mismatches
        rw [asked_idle idle]
        exact le_refl _
      · intro _ impossible
        cases impossible
  | _ =>
      refine ⟨le_refl _, fun _ => ⟨taken, ?_⟩⟩
      intro _ impossible
      cases impossible

theorem mismatches_free (kept : ContractPersistKept round)
    (idle : round.persist.existsWorkToDo = false) :
    round.mismatches = 0 ↔ SavedAsWritten round := by
  have paired := kept.paired
  rw [asked_idle idle, List.append_nil] at paired
  have agree : List.Forall₂ (· = ·) round.saved round.written ↔ SavedAsWritten round := by
    rw [List.forall₂_eq_eq_eq]
    rfl
  rw [← agree, List.forall₂_iff_zip, ContractPersistRound.mismatches, asked_idle idle,
    List.append_nil, List.countP_eq_zero]
  constructor
  · intro none
    refine ⟨paired, fun member => ?_⟩
    have same := none _ member
    simpa using same
  · rintro ⟨_, same⟩ ⟨saved, written⟩ member
    have equal := same member
    simpa using equal

theorem repeating_step_kept (kept : ContractPersistKept round)
    (asked : round.saved ++ round.asked = round.written)
    (step : RepeatingStep round label next) : next.saved ++ next.asked = next.written := by
  obtain ⟨step, repeats⟩ := step
  cases step with
  | wrote timestamp idle =>
      have matching := (item_matches_iff kept idle).mpr (repeats timestamp rfl)
      rw [asked_idle idle, List.append_nil] at asked
      simp only [← asked, ← matching]
      rfl
  | savedData running open_flag work =>
      rw [asked_busy work] at asked
      rw [← asked]
      exact List.append_nil _
  | dropped idle =>
      rw [asked_idle idle] at asked
      exact asked
  | _ => exact asked

/-- Once idle, every written block has its own data saved, and nothing else is
saved, if and only if at the end of each written block the live buffers held what
they held at the end of the block before it. -/
theorem contracts_saved_iff {labels : List ContractSection}
    (run : Run ContractStep contractPersistStart labels round)
    (idle : round.persist.existsWorkToDo = false) :
    SavedAsWritten round ↔ Run RepeatingStep contractPersistStart labels round := by
  have kept := run_invariant ContractPersistKept (fun _ _ _ => contract_step_kept)
    contract_persist_start_kept run
  have within := run_within ContractPersistKept (fun _ _ _ => contract_step_kept)
    contract_persist_start_kept run
  constructor
  · intro saved
    obtain ⟨_, costless⟩ := run_costless ContractPersistRound.mismatches
      (fun _ _ _ step => (mismatches_grow step.1 step.2).1)
      (fun _ _ _ step => (mismatches_grow step.1 step.2).2) within
    exact costless ((mismatches_free kept idle).mpr saved)
  · intro repeating
    have ends := run_invariant
      (fun round => ContractPersistKept round ∧ round.saved ++ round.asked = round.written)
      (fun _ _ _ holds step =>
        ⟨contract_step_kept holds.1 step.1, repeating_step_kept holds.1 holds.2 step⟩)
      ⟨contract_persist_start_kept, rfl⟩ repeating
    have same := ends.2
    rwa [asked_idle idle, List.append_nil] at same

def afterOneBlock (live : AsyncPersistContracts) (logged : Multiset ContractRecord) :
    ContractPersistRound where
  persist := { (live.write 1).swapData with workDone := true }
  returned := false
  logged := 0
  heldBefore := ContractBuffers.records live.cache
  written := [(1, logged)]
  saved := [(1, ContractBuffers.records live.workItem)]

/-- A creation is logged while the thread has yet to save the first block. It comes with
the swap into the work item, and the second block is saved with it. -/
theorem contracts_saved_second : ∃ round, Run ContractStep contractPersistStart
    [.write 1, .logCreate firstThread 3 [7], .run, .write 2, .run] round ∧
      round.written = [(1, 0), (2, {.create { h := 3, unmeteredContract := [7] }})] ∧
      SavedAsWritten round := by
  have held : ContractBuffers.records AsyncPersistContracts.start.cache = 0 := records_empty
  have noWrite {round next : ContractPersistRound} {label : ContractSection}
      (step : ContractStep round label next) (other : ∀ timestamp, label ≠ .write timestamp) :
      RepeatingStep round label next :=
    ⟨step, fun timestamp same => absurd same (other timestamp)⟩
  have repeating : ∃ round, Run RepeatingStep contractPersistStart
      [.write 1, .logCreate firstThread 3 [7], .run, .write 2, .run] round ∧
        round.persist.existsWorkToDo = false ∧
        round.written = [(1, 0), (2, {.create { h := 3, unmeteredContract := [7] }})] := by
    have wrote : Run RepeatingStep contractPersistStart [.write 1] _ :=
      Run.cons ⟨.wrote 1 rfl, fun _ _ => held⟩ (Run.nil _)
    have created := run_snoc wrote (noWrite (.created firstThread 3 [7]) (fun _ => nofun))
    have saved := run_snoc created (noWrite (.savedData rfl rfl rfl) (fun _ => nofun))
    have wroteAgain := run_snoc saved ⟨.wrote 2 rfl, fun _ _ => rfl⟩
    have savedAgain := run_snoc wroteAgain (noWrite (.savedData rfl rfl rfl) (fun _ => nofun))
    exact ⟨_, savedAgain, rfl, rfl⟩
  obtain ⟨round, run, idle, written⟩ := repeating
  have steps : Run ContractStep contractPersistStart _ round :=
    run_mono (fun _ _ _ step => step.1) run
  exact ⟨round, steps, written, (contracts_saved_iff steps idle).mpr run⟩

/-- A block logs one creation and is written: the file holds the empty work item, as the
buffers go there only after the thread has begun to save. -/
theorem contracts_saved_late : ¬ ∀ (labels : List ContractSection)
    (round : ContractPersistRound), Run ContractStep contractPersistStart labels round →
      round.persist.existsWorkToDo = false → SavedAsWritten round := by
  intro claimed
  have run : Run ContractStep contractPersistStart
      [.logCreate firstThread 3 [7], .write 1, .run]
      (afterOneBlock (AsyncPersistContracts.start.logCreate firstThread 3 [7])
        {.create { h := 3, unmeteredContract := [7] }}) := by
    apply Run.cons (.created firstThread 3 [7])
    apply Run.cons (.wrote 1 rfl)
    apply Run.cons (.savedData rfl rfl rfl)
    exact Run.nil _
  have saved := claimed _ _ run rfl
  have nothing : ContractBuffers.records
      (AsyncPersistContracts.start.logCreate firstThread 3 [7]).workItem = 0 := records_empty
  simp only [SavedAsWritten, afterOneBlock, nothing] at saved
  have none := congrArg (List.map fun entry => Multiset.card entry.2) saved
  exact absurd none (by decide)

end Scs
