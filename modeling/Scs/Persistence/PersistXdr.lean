import Scs.Library.Runs
import Mathlib.Data.Int.Order.Basic
import Mathlib.Data.List.Nodup
import Mathlib.Data.List.Perm.Subperm

/-!
# Saving blocks in the background (`persistence/persist_xdr.h`)

`log` hands an item over to a thread that saves it to a file named after its
timestamp. There is one slot for the item, its timestamp and the flag that it is
done, and each side holds the mutex for its whole section.
-/

namespace Scs

set_option autoImplicit false

open Runs

variable {Item : Type}

structure AsyncPersistXDR (Item : Type) where
  workItem : Item
  workDone : Bool
  workTs : UInt32
  doneFlag : Bool

namespace AsyncPersistXDR

def start [Inhabited Item] : AsyncPersistXDR Item where
  workItem := default
  workDone := true
  workTs := 0
  doneFlag := false

def existsWorkToDo (persist : AsyncPersistXDR Item) : Bool := !persist.workDone

/-- The caller gets back the item that was in the slot. -/
def log (block : Item) (timestamp : UInt32) (persist : AsyncPersistXDR Item) :
    Item × AsyncPersistXDR Item :=
  (persist.workItem,
    { persist with workItem := block, workDone := false, workTs := timestamp })

end AsyncPersistXDR

/-- The object and its thread, with every `log` so far and every file written. -/
structure PersistRound (Item : Type) where
  persist : AsyncPersistXDR Item
  returned : Bool
  logged : List (UInt32 × Item)
  saved : List (UInt32 × Item)

inductive PersistSection (Item : Type) where
  | log (block : Item) (timestamp : UInt32)
  | run
  | terminate

/-- One section under the mutex. `run` is a turn of the loop, or what follows a
wake-up of its wait, spurious or not; an item that cannot be saved ends the
process. -/
inductive PersistStep (saves : UInt32 → Item → Bool) :
    PersistRound Item → PersistSection Item → PersistRound Item → Prop
  | logged {round : PersistRound Item} (block : Item) (timestamp : UInt32) :
      PersistStep saves round (.log block timestamp)
        { round with
          persist := (round.persist.log block timestamp).2
          logged := round.logged ++ [(timestamp, block)] }
  | stopped {round : PersistRound Item} (running : round.returned = false)
      (done : round.persist.doneFlag = true) :
      PersistStep saves round .run { round with returned := true }
  | waited {round : PersistRound Item} (running : round.returned = false)
      (open_flag : round.persist.doneFlag = false)
      (noWork : round.persist.existsWorkToDo = false) :
      PersistStep saves round .run round
  | saved {round : PersistRound Item} (running : round.returned = false)
      (open_flag : round.persist.doneFlag = false)
      (work : round.persist.existsWorkToDo = true)
      (succeeds : saves round.persist.workTs round.persist.workItem = true) :
      PersistStep saves round .run
        { round with
          persist := { round.persist with workDone := true }
          saved := round.saved ++ [(round.persist.workTs, round.persist.workItem)] }
  | terminated {round : PersistRound Item} :
      PersistStep saves round .terminate
        { round with persist := { round.persist with doneFlag := true } }

def persistStart [Inhabited Item] : PersistRound Item where
  persist := .start
  returned := false
  logged := []
  saved := []

/-- Every item is in the file of its timestamp, and no other item is in a file. -/
structure AllSaved (round : PersistRound Item) : Prop where
  complete : ∀ entry ∈ round.logged, entry ∈ round.saved
  sound : ∀ entry ∈ round.saved, entry ∈ round.logged

/-- A section that is no `log` while an item is waiting. The slot holds one item, and `log`
does not look at it. -/
def PatientStep (saves : UInt32 → Item → Bool) (round : PersistRound Item)
    (label : PersistSection Item) (next : PersistRound Item) : Prop :=
  PersistStep saves round label next ∧
    ∀ block timestamp, label = .log block timestamp → round.persist.existsWorkToDo = false

namespace PersistRound

def pending (round : PersistRound Item) : List (UInt32 × Item) :=
  if round.persist.existsWorkToDo then [(round.persist.workTs, round.persist.workItem)] else []

/-- How many items the slot no longer holds and no file does. -/
def overwritten (round : PersistRound Item) : ℤ :=
  round.logged.length - round.saved.length - round.pending.length

end PersistRound

variable {saves : UInt32 → Item → Bool} {round next : PersistRound Item}
  {label : PersistSection Item}

theorem pending_done (noWork : round.persist.existsWorkToDo = false) : round.pending = [] := by
  rw [PersistRound.pending, noWork]
  rfl

theorem pending_work (work : round.persist.existsWorkToDo = true) :
    round.pending = [(round.persist.workTs, round.persist.workItem)] := by
  rw [PersistRound.pending, if_pos work]

/-- A `log` over a waiting item overwrites it; every other section overwrites nothing. -/
theorem overwritten_grows (step : PersistStep saves round label next) :
    round.overwritten ≤ next.overwritten ∧
      (next.overwritten = round.overwritten → PatientStep saves round label next) := by
  have taken := step
  cases step with
  | logged block timestamp =>
      have after : PersistRound.pending
          { round with
            persist := (round.persist.log block timestamp).2
            logged := round.logged ++ [(timestamp, block)] } = [(timestamp, block)] := rfl
      simp only [PersistRound.overwritten, after, List.length_append, List.length_singleton]
      cases work : round.persist.existsWorkToDo with
      | true =>
          rw [pending_work work, List.length_singleton]
          push_cast
          constructor
          · omega
          · omega
      | false =>
          rw [pending_done work, List.length_nil]
          push_cast
          constructor
          · omega
          · intro _
            refine ⟨taken, ?_⟩
            intro _ _ _
            exact work
  | stopped | waited | terminated =>
      refine ⟨le_refl _, fun _ => ⟨taken, ?_⟩⟩
      intro _ _ impossible
      cases impossible
  | saved running open_flag work succeeds =>
      have after : PersistRound.pending
          { round with
            persist := { round.persist with workDone := true }
            saved := round.saved ++ [(round.persist.workTs, round.persist.workItem)] } = [] := rfl
      simp only [PersistRound.overwritten, after, pending_work work, List.length_append,
        List.length_singleton, List.length_nil]
      push_cast
      refine ⟨by omega, fun _ => ⟨taken, ?_⟩⟩
      intro _ _ impossible
      cases impossible

theorem patient_step_kept (kept : round.logged = round.saved ++ round.pending)
    (step : PatientStep saves round label next) : next.logged = next.saved ++ next.pending := by
  obtain ⟨step, patient⟩ := step
  cases step with
  | logged block timestamp =>
      have noWork := patient block timestamp rfl
      rw [pending_done noWork, List.append_nil] at kept
      simp only [kept]
      rfl
  | stopped | waited | terminated => exact kept
  | saved running open_flag work succeeds =>
      rw [pending_work work] at kept
      simp only [kept]
      exact (List.append_nil _).symm

variable [Inhabited Item]

/-- Once idle, the files hold every item under its own timestamp if and only if no
`log` came while another item was waiting. -/
theorem all_saved_iff {labels : List (PersistSection Item)}
    (run : Run (PersistStep saves) persistStart labels round)
    (distinct : (round.logged.map Prod.fst).Nodup)
    (idle : round.persist.existsWorkToDo = false) :
    AllSaved round ↔ Run (PatientStep saves) persistStart labels round := by
  constructor
  · intro allSaved
    have nodup : round.logged.Nodup := List.Nodup.of_map Prod.fst distinct
    have short : round.logged.length ≤ round.saved.length :=
      (nodup.subperm allSaved.complete).length_le
    obtain ⟨grows, costless⟩ := run_costless PersistRound.overwritten
      (fun _ _ _ step => (overwritten_grows step).1)
      (fun _ _ _ step => (overwritten_grows step).2) run
    have nothing : PersistRound.overwritten (persistStart : PersistRound Item) = 0 := rfl
    have ends : round.overwritten = round.logged.length - round.saved.length := by
      rw [PersistRound.overwritten, pending_done idle, List.length_nil]
      omega
    exact costless (by omega)
  · intro patient
    have kept := run_invariant (fun round => round.logged = round.saved ++ round.pending)
      (fun _ _ _ => patient_step_kept) rfl patient
    rw [pending_done idle, List.append_nil] at kept
    constructor
    · intro entry member
      rwa [← kept]
    · intro entry member
      rwa [kept]

theorem all_saved_patient : Run (PatientStep fun _ (_ : ℕ) => true) persistStart
    [.log 10 1, .run, .log 20 2, .run]
    { persist := { workItem := 20, workDone := true, workTs := 2, doneFlag := false }
      returned := false
      logged := [(1, 10), (2, 20)]
      saved := [(1, 10), (2, 20)] } := by
  apply (all_saved_iff _ (by decide) rfl).mp
  · constructor <;> exact fun _ => id
  · apply Run.cons (.logged 10 1)
    apply Run.cons (.saved rfl rfl rfl rfl)
    apply Run.cons (.logged 20 2)
    apply Run.cons (.saved rfl rfl rfl rfl)
    exact Run.nil _

/-- Two items logged before the thread wakes up: the first is in no file. -/
theorem waiting_item_lost : ¬ ∀ (labels : List (PersistSection ℕ)) (round : PersistRound ℕ),
    Run (PersistStep fun _ _ => true) persistStart labels round →
      (round.logged.map Prod.fst).Nodup → round.persist.existsWorkToDo = false →
        AllSaved round := by
  intro claimed
  have run : Run (PersistStep fun _ (_ : ℕ) => true) persistStart [.log 10 1, .log 20 2, .run]
      { persist := { workItem := 20, workDone := true, workTs := 2, doneFlag := false }
        returned := false
        logged := [(1, 10), (2, 20)]
        saved := [(2, 20)] } := by
    apply Run.cons (.logged 10 1)
    apply Run.cons (.logged 20 2)
    apply Run.cons (.saved rfl rfl rfl rfl)
    exact Run.nil _
  have allSaved := claimed _ _ run (by decide) rfl
  exact absurd (allSaved.complete (1, 10) List.mem_cons_self) (by decide)

end Scs
