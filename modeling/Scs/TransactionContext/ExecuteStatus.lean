import Scs.TransactionContext.ExecuteReturns
import Scs.TransactionContext.HostErrors

/-!
# What can take a node down

The root invocation of a transaction throws `HostError` only, whatever it calls,
and within a block every transaction moves on to its status. What aborts the
process instead is told apart by the state before the move.
-/

namespace Scs

set_option autoImplicit false

open Lockstep Runs

/-- In this state of a block `execute` goes on to a status for every transaction: one of its
moves is due, or it has finished. -/
structure GoesOn {Runtime Database : Type} {Tx : Type*} [DecidableEq Tx]
    (cryptoShorthash : CryptoShorthash) (library : ContractLibrary) (host : Host Runtime)
    (store : StateStore Database) (submissions : Tx → Submission) (programs : Tx → Program)
    (block : BlockExecution Tx Database) : Prop where
  raised : ∀ tx thrown, Reaches host (submissions tx) (block.contexts tx).results
    (.throws thrown) → thrown.IsHostError
  answered : ∀ tx call next fault, Reaches host (submissions tx) (block.contexts tx).results
    (.asks call next) → block.FindsScript programs tx →
      (block.contexts tx).perform library (block.committedValues store)
        block.globalContext.contractDb call ≠ .error (.other fault)
  called : ∀ tx, (block.contexts tx).status = .running →
    ((∃ next, MovesBlock cryptoShorthash library store programs block (.call tx) next) ↔
      block.FindsScript programs tx)
  pushed : ∀ tx ids key delta rest next,
    block.books.phase tx = .pushing ((key, delta) :: rest) →
      MovesBlock cryptoShorthash library store programs block (.push tx ids) next →
        block.HasEntry store ids key delta
  closed : ∀ tx thread closure rest, block.closures tx = closure :: rest →
    ((∃ next, MovesBlock cryptoShorthash library store programs block (.close tx thread) next) ↔
      closure.Unrecorded block.globalContext.contractDb)
  moved : ∀ tx move, DueMove block tx move → HarmlessMove store programs block move →
    ∃ next, MovesBlock cryptoShorthash library store programs block move next
  due : ∀ tx, (∃ move, DueMove block tx move) ∨ block.Finished tx

section Block

variable {Runtime Tx Database : Type} [DecidableEq Tx] {cryptoShorthash : CryptoShorthash}
  {library : ContractLibrary} {host : Host Runtime} {store : StateStore Database}
  {view : SettlingStore cryptoShorthash store} {submissions : Tx → Submission}
  {programs : Tx → Program} {before : GlobalContext Database} {moves : List (BlockMove Tx)}
  {block : BlockExecution Tx Database}

theorem run_goes_on (steady : SteadyStore store) (rested : Rested view before.stateDb)
    (respond : RespondingStore view.toObjectStore) (ready : respond.Ready before.stateDb)
    (clear : before.contractDb.uncommittedContracts = .empty)
    (executes : ∀ tx, Executes host (submissions tx) (programs tx))
    (run : Run (MovesHarmlessly cryptoShorthash library store programs) (.start before) moves
      block) : GoesOn cryptoShorthash library host store submissions programs block := by
  have moved := harmless_run_moves run
  have tidy : ∀ key, Tidy (block.committedValues store key) := by
    intro key
    obtain ⟨opening, base, kempt, _⟩ := rested.opened key
    have tidy := (base ▸ kempt).toTidy
    rw [run_committed_values steady moved]
    exact tidy
  constructor
  · exact fun tx thrown reached => reaches_host_error reached
  · intro tx call next fault reached finds threw
    obtain ⟨address, same, found⟩ :=
      perform_throws tidy (run_views_seen steady moved tx) threw
    have called := (executes tx).asks reached
    rw [same] at called
    obtain ⟨script, returned⟩ := get_script_returns_iff.mpr (finds address called)
    rw [found] at returned
    cases returned
  · exact fun tx running => call_returns_iff tidy (run_views_seen steady moved tx) running
  · exact fun tx ids key delta rest next phase pushed =>
      push_keeps_entry respond ready moved phase pushed
  · exact fun tx thread closure rest closing => close_returns_iff closing
  · exact fun tx move due harmless =>
      due_move_returns steady rested respond ready clear run due harmless
  · exact due_or_finished moved

end Block

/-! ## Chains of blocks -/

/-- After any chain of blocks, and in any state of a block that harmless moves have
led to, every transaction goes on to its status. -/
def ReturnsStatus {Runtime Database : Type} (cryptoShorthash : CryptoShorthash)
    (library : ContractLibrary) (host : Host Runtime) (Tx : Type) [DecidableEq Tx]
    (store : StateStore Database) (genesis : GlobalContext Database) : Prop :=
  ∀ before, Relation.ReflTransGen (EndsBlock cryptoShorthash library Tx store) genesis before →
    ∀ (submissions : Tx → Submission) (programs : Tx → Program),
      (∀ tx, Executes host (submissions tx) (programs tx)) →
        ∀ moves block, Run (MovesHarmlessly cryptoShorthash library store programs)
          (.start before) moves block →
            GoesOn cryptoShorthash library host store submissions programs block

section Chain

variable {Runtime Tx Database : Type} [DecidableEq Tx] {cryptoShorthash : CryptoShorthash}
  {library : ContractLibrary} {host : Host Runtime} {store : StateStore Database}
  {view : SettlingStore cryptoShorthash store} {genesis before : GlobalContext Database}

theorem chain_ready (respond : RespondingStore view.toObjectStore)
    (ready : respond.Ready genesis.stateDb)
    (chain : Relation.ReflTransGen (EndsBlock cryptoShorthash library Tx store) genesis before) :
    respond.Ready before.stateDb := by
  induction chain with
  | refl => exact ready
  | tail _ ends _ =>
      cases ends with
      | finished run quiescent logged contracts modifications =>
          exact respond.commit_ready modifications
      | undone run quiescent logged modifications => exact respond.rewind_ready modifications

theorem chain_returns_status (steady : SteadyStore store)
    (respond : RespondingStore view.toObjectStore) (ready : respond.Ready genesis.stateDb)
    (rested : Rested view genesis.stateDb)
    (clear : genesis.contractDb.uncommittedContracts = .empty) :
    ReturnsStatus cryptoShorthash library host Tx store genesis := by
  intro before chain submissions programs executes moves block run
  exact run_goes_on steady (chain_rested rested chain) respond (chain_ready respond ready chain)
    (chain_binds clear chain).1 executes run

end Chain

def invokes (address : Address) : Submission where
  txHash := 1
  tx :=
    { tx :=
        { invocation := { invokedAddress := address, methodName := 0, calldata := [] }
          gasLimit := 1000000
          gasRateBid := 1
          contractsToDeploy := [] }
      witnesses := [] }
  currentBlock := 2

/-- Every script is a contract that inserts one hash and returns. Its state says whether the
hash is inserted, and it finds the offset of a word in the word. -/
def insertsOnce : Host Bool where
  wasm :=
    { newRuntimeInstance := fun view => .ok (view.map fun _ => false)
      invoke := fun _ runtime => .ok runtime
      next := fun inserted => if inserted then .returned else .syscall 615 5 3 1 0 0 0
      resume := fun _ _ => true
      loadFromMemory := fun _ len _ => .ok (Vector.replicate len.toNat 0)
      loadFromMemoryToConstSizeBuf := fun width offset _ => .ok (BitVec.ofNat width offset.toNat)
      writeToMemory := fun _ _ _ runtime => .ok runtime
      writeSliceToMemory := fun _ _ _ _ runtime => .ok runtime
      memcmp := fun _ _ _ _ => .ok 0
      memset := fun ptr _ _ runtime => .ok (ptr, runtime)
      safeMemcpy := fun dst _ _ runtime => .ok (dst, runtime)
      safeStrlen := fun _ _ _ => .ok 0 }
  hashTransaction _ := 0
  hashXdr _ := 0
  checkSigEd25519 _ _ _ := false

def insertsProgram : Program := fun results =>
  match results with
  | [] => .call (.getScript 9)
  | found :: rest =>
      if found.view.isNone then .traps "cannot find target address"
      else if rest.isEmpty then .call (.hashsetInsert ((9 : Address) ++ (5 : InvariantKey)) 3 1)
      else .returns

def insertsEntered : ExecutionContext Bool :=
  ((ExecutionContext.start.setRuntime 9 false).pushInvocationStack 9
    (.ofRoot (invokes 9).tx.tx.invocation)).setRuntime 9 false

def insertsPaid : ExecutionContext Bool :=
  { insertsEntered with gasUsed := gasHashsetInsert }.setRuntime 9 true

inductive InsertsReach : List CallResult → Execution Bool → Prop
  | started : InsertsReach [] (.asks (.getScript 9) fun found =>
      match found.view with
      | none => .throws (.hostError "cannot find target address")
      | some _ => .done ((), insertsEntered))
  | missing {found : CallResult} (view : found.view = none) :
      InsertsReach [found] (.throws (.hostError "cannot find target address"))
  | entered {found : CallResult} {script : List UInt8} (view : found.view = some script) :
      InsertsReach [found] (.done ((), insertsEntered))
  | inserts {found : CallResult} {script : List UInt8} (view : found.view = some script) :
      InsertsReach [found] (.asks (.hashsetInsert ((9 : Address) ++ (5 : InvariantKey)) 3 1)
        fun _ => .done ((), insertsPaid))
  | inserted {found answer : CallResult} {script : List UInt8} (view : found.view = some script) :
      InsertsReach [found, answer] (.done ((), insertsPaid))
  | returned {found answer : CallResult} {script : List UInt8} (view : found.view = some script) :
      InsertsReach [found, answer] (.done ((), insertsPaid.popInvocationStack))

theorem inserts_reach {results : List CallResult} {execution : Execution Bool}
    (reached : Reaches insertsOnce (invokes 9) results execution) :
    InsertsReach results execution := by
  induction reached with
  | started =>
      have start : invokeSubroutine insertsOnce (.ofRoot (invokes 9).tx.tx.invocation) .start =
          .asks (.getScript 9) fun found =>
            match found.view with
            | none => .throws (.hostError "cannot find target address")
            | some _ => .done ((), insertsEntered) := by
        apply congrArg (Interaction.asks _)
        funext found
        cases found with
        | script view => cases view <;> rfl
        | _ => rfl
      rw [start]
      exact .started
  | stepped _ running induction =>
      cases induction with
      | entered view => exact .inserts view
      | inserted view => exact .returned view
      | returned view => exact absurd rfl running
  | answered _ answer induction =>
      cases induction with
      | started =>
          cases view : answer.view with
          | none =>
              simp only [view]
              exact .missing view
          | some script =>
              simp only [view]
              exact .entered view
      | inserts view => exact .inserted view

theorem inserts_executes : Executes insertsOnce (invokes 9) insertsProgram where
  asks reached := by
    cases inserts_reach reached with
    | started => rfl
    | inserts view => simp [insertsProgram, view]
  returns reached ended := by
    cases inserts_reach reached with
    | returned view => simp [insertsProgram, view]
    | entered view => cases ended
    | inserted view => cases ended
  traps reached := by
    cases inserts_reach reached with
    | missing view => simp [insertsProgram, view]

def oneScript : ContractDB :=
  { ContractDB.empty with
    addressesToContracts := fun address =>
      if address = 9 then some { base := some [0] } else none }

def oneScriptStored : GlobalContext StateDBv2 where
  stateDb := { stateDb := fun _ => none }
  contractDb := oneScript.rewind

def insertsMove (block : BlockExecution Bool StateDBv2) (move : BlockMove Bool) :
    Option (BlockExecution Bool StateDBv2) :=
  block.perform (fun _ => 0) oneContract (StateDBv2.store fun _ => 0) (fun _ => insertsProgram) move

def unmetered : ContractLibrary where
  addMetering _ := none
  hashXdr _ := 5
  hashVec _ := 9

def noScripts : Host Unit where
  wasm :=
    { newRuntimeInstance := fun _ => .ok none
      invoke := fun _ _ => .ok ()
      next := fun _ => .returned
      resume := fun _ _ => ()
      loadFromMemory := fun _ len _ => .ok (Vector.replicate len.toNat 0)
      loadFromMemoryToConstSizeBuf := fun _ _ _ => .ok 0
      writeToMemory := fun _ _ _ _ => .ok ()
      writeSliceToMemory := fun _ _ _ _ _ => .ok ()
      memcmp := fun _ _ _ _ => .ok 0
      memset := fun ptr _ _ _ => .ok (ptr, ())
      safeMemcpy := fun dst _ _ _ => .ok (dst, ())
      safeStrlen := fun _ _ _ => .ok 0 }
  hashTransaction _ := 0
  hashXdr _ := 0
  checkSigEd25519 _ _ _ := false

def invokesProgram (address : Address) : Program := fun results =>
  if results.isEmpty then .call (.getScript address) else .traps "cannot find target address"

theorem invokes_reaches {address : Address} {results : List CallResult}
    {execution : Execution Unit} (reached : Reaches noScripts (invokes address) results execution) :
    (results = [] ∧ execution = .asks (.getScript address) fun _ =>
      .throws (.hostError "cannot find target address")) ∨
      results ≠ [] ∧ execution = .throws (.hostError "cannot find target address") := by
  induction reached with
  | started => exact .inl ⟨rfl, rfl⟩
  | stepped _ _ induction =>
      rcases induction with ⟨_, impossible⟩ | ⟨_, impossible⟩ <;> cases impossible
  | answered _ answer induction =>
      rcases induction with ⟨_, same⟩ | ⟨_, impossible⟩
      · cases same
        exact .inr ⟨List.append_ne_nil_of_right_ne_nil _ (List.cons_ne_nil _ _), rfl⟩
      · cases impossible

theorem invokes_executes (address : Address) :
    Executes noScripts (invokes address) (invokesProgram address) where
  asks reached := by
    rcases invokes_reaches reached with ⟨rfl, same⟩ | ⟨_, impossible⟩
    · cases same
      rfl
    · cases impossible
  returns reached _ := by
    rcases invokes_reaches reached with ⟨_, impossible⟩ | ⟨_, impossible⟩ <;> cases impossible
  traps reached := by
    rcases invokes_reaches reached with ⟨_, impossible⟩ | ⟨later, same⟩
    · cases impossible
    · cases same
      exact if_neg fun none => later (List.isEmpty_iff.mp none)

end Scs
