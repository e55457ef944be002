import Scs.Vm.BaseVm

/-!
# The chain of block headers

Every header names the hash of the last validated header as its parent. A
proposed header never becomes that parent, so a chain is linked when no header
follows a proposal.
-/

namespace Scs

set_option autoImplicit false

def BlockCall.producesHeader {World : Type} : BlockCall World → Bool
  | .tryExecTxBlock _ valid => valid
  | .proposeTxBlock _ => true

def ProposalsLast {World : Type} : List (BlockCall World) → Prop
  | [] => True
  | .proposeTxBlock _ :: rest => ∀ call ∈ rest, call.producesHeader = false
  | .tryExecTxBlock _ _ :: rest => ProposalsLast rest

namespace Vm

variable {World : Type} (phases : Phases World) (hashXdr : BlockHeader → Hash)

def Linked : Hash → List BlockHeader → Prop
  | _, [] => True
  | tip, header :: rest => header.prevHeaderHash = tip ∧ Linked (hashXdr header) rest

/-- The headers of the run are linked from the tip it starts with, and a call
that returns no header leaves the tip. -/
structure ChainLinked (machine : Machine) (start : Vm World) (calls : List (BlockCall World)) :
    Prop where
  linked : ∀ headers final, runCalls phases hashXdr machine start calls = some (headers, final) →
    Linked hashXdr start.prevBlockHash headers
  kept : ∀ before call after headers middle next, calls = before ++ call :: after →
    runCalls phases hashXdr machine start before = some (headers, middle) →
    perform phases hashXdr machine middle call = some (none, next) →
    next.prevBlockHash = middle.prevBlockHash

/-! ## One call -/

variable {phases hashXdr} {machine : Machine} {vm next : Vm World}

/-- Everything that one call can do to the header chain. -/
inductive Performed (hashXdr : BlockHeader → Hash) (vm : Vm World) :
    BlockCall World → Option BlockHeader → Vm World → Prop
  | accepted {executed : World} {next : Vm World} (header : BlockHeader)
      (parent : header.prevHeaderHash = vm.prevBlockHash)
      (tip : next.prevBlockHash = hashXdr header) :
      Performed hashXdr vm (.tryExecTxBlock executed true) (some header) next
  | refused {executed : World} {next : Vm World} (tip : next.prevBlockHash = vm.prevBlockHash) :
      Performed hashXdr vm (.tryExecTxBlock executed false) none next
  | proposed {assembled : World} {next : Vm World} (header : BlockHeader)
      (parent : header.prevHeaderHash = vm.prevBlockHash)
      (tip : next.prevBlockHash = vm.prevBlockHash) :
      Performed hashXdr vm (.proposeTxBlock assembled) (some header) next

theorem perform_cases {call : BlockCall World} {out : Option BlockHeader}
    (returned : perform phases hashXdr machine vm call = some (out, next)) :
    Performed hashXdr vm call out next := by
  obtain ⟨world, context, tip⟩ := vm
  cases context with
  | none => cases call <;> cases returned
  | some blockNumber =>
      cases call with
      | tryExecTxBlock executed valid =>
          cases valid with
          | false =>
              cases machine <;> cases returned
              all_goals exact .refused rfl
          | true =>
              cases machine <;> cases returned
              all_goals exact .accepted _ rfl rfl
      | proposeTxBlock assembled =>
          cases machine <;> cases returned
          all_goals exact .proposed _ rfl rfl

theorem perform_returns (initialized : vm.currentBlockContext.isSome = true)
    (call : BlockCall World) : ∃ out next,
      perform phases hashXdr machine vm call = some (out, next) ∧
        next.currentBlockContext.isSome = true := by
  obtain ⟨world, context, tip⟩ := vm
  cases context with
  | none => cases initialized
  | some blockNumber =>
      cases call with
      | tryExecTxBlock executed valid =>
          cases valid <;> cases machine <;> exact ⟨_, _, rfl, rfl⟩
      | proposeTxBlock assembled => cases machine <;> exact ⟨_, _, rfl, rfl⟩

/-! ## Runs of calls -/

theorem run_calls_cons {call : BlockCall World} {rest : List (BlockCall World)}
    {headers : List BlockHeader} {final : Vm World}
    (returned : runCalls phases hashXdr machine vm (call :: rest) = some (headers, final)) :
    ∃ out next later, perform phases hashXdr machine vm call = some (out, next) ∧
      runCalls phases hashXdr machine next rest = some (later, final) ∧
      headers = out.toList ++ later := by
  rw [runCalls] at returned
  obtain ⟨⟨out, next⟩, performed, later⟩ := Option.bind_eq_some_iff.mp returned
  obtain ⟨⟨headers, last⟩, continued, same⟩ := Option.bind_eq_some_iff.mp later
  cases same
  exact ⟨out, next, headers, performed, continued, rfl⟩

theorem run_calls_returns (calls : List (BlockCall World))
    (initialized : vm.currentBlockContext.isSome = true) :
    ∃ headers final, runCalls phases hashXdr machine vm calls = some (headers, final) := by
  induction calls generalizing vm with
  | nil => exact ⟨[], vm, rfl⟩
  | cons call rest induction =>
      obtain ⟨out, next, performed, again⟩ := perform_returns initialized call
      obtain ⟨headers, final, continued⟩ := induction again
      refine ⟨out.toList ++ headers, final, ?_⟩
      rw [runCalls, performed]
      apply Option.bind_eq_some_iff.mpr
      exact ⟨_, rfl, Option.bind_eq_some_iff.mpr ⟨_, continued, rfl⟩⟩

theorem first_header (calls : List (BlockCall World)) {header : BlockHeader}
    {headers : List BlockHeader} {final : Vm World}
    (returned : runCalls phases hashXdr machine vm calls = some (header :: headers, final)) :
    header.prevHeaderHash = vm.prevBlockHash := by
  induction calls generalizing vm with
  | nil => cases returned
  | cons call rest induction =>
      obtain ⟨out, next, later, performed, continued, same⟩ := run_calls_cons returned
      cases perform_cases performed with
      | accepted first parent tip =>
          cases same
          exact parent
      | proposed first parent tip =>
          cases same
          exact parent
      | refused tip =>
          subst same
          exact (induction continued).trans tip

/-- A run makes no header exactly when none of its calls does. -/
theorem headers_nil_iff (calls : List (BlockCall World)) {headers : List BlockHeader}
    {final : Vm World}
    (returned : runCalls phases hashXdr machine vm calls = some (headers, final)) :
    headers = [] ↔ ∀ call ∈ calls, call.producesHeader = false := by
  induction calls generalizing vm headers with
  | nil =>
      cases returned
      exact ⟨fun _ call impossible => absurd impossible List.not_mem_nil, fun _ => rfl⟩
  | cons call rest induction =>
      obtain ⟨out, next, later, performed, continued, rfl⟩ := run_calls_cons returned
      rw [List.forall_mem_cons]
      cases perform_cases performed with
      | accepted first parent tip =>
          constructor
          · intro empty
            cases empty
          · intro ⟨silent, _⟩
            cases silent
      | proposed first parent tip =>
          constructor
          · intro empty
            cases empty
          · intro ⟨silent, _⟩
            cases silent
      | refused tip =>
          rw [← induction continued]
          exact ⟨fun empty => ⟨rfl, empty⟩, fun empty => empty.2⟩

theorem linked_of_proposals_last (calls : List (BlockCall World)) (last : ProposalsLast calls)
    {headers : List BlockHeader} {final : Vm World}
    (returned : runCalls phases hashXdr machine vm calls = some (headers, final)) :
    Linked hashXdr vm.prevBlockHash headers := by
  induction calls generalizing vm headers with
  | nil =>
      cases returned
      trivial
  | cons call rest induction =>
      obtain ⟨out, next, later, performed, continued, rfl⟩ := run_calls_cons returned
      cases perform_cases performed with
      | accepted header parent tip =>
          refine ⟨parent, ?_⟩
          rw [← tip]
          exact induction last continued
      | refused tip =>
          rw [← tip]
          exact induction last continued
      | proposed header parent tip =>
          have nothing := (headers_nil_iff rest continued).mpr last
          subst nothing
          exact ⟨parent, trivial⟩

theorem proposals_last_of_linked (calls : List (BlockCall World))
    (moves : ∀ header, hashXdr header ≠ header.prevHeaderHash)
    {headers : List BlockHeader} {final : Vm World}
    (returned : runCalls phases hashXdr machine vm calls = some (headers, final))
    (linked : Linked hashXdr vm.prevBlockHash headers) : ProposalsLast calls := by
  induction calls generalizing vm headers with
  | nil => trivial
  | cons call rest induction =>
      obtain ⟨out, next, later, performed, continued, rfl⟩ := run_calls_cons returned
      cases perform_cases performed with
      | accepted header parent tip =>
          have after := linked.2
          rw [← tip] at after
          exact induction continued after
      | refused tip =>
          rw [← tip] at linked
          exact induction continued linked
      | proposed header parent tip =>
          cases later with
          | nil => exact (headers_nil_iff rest continued).mp rfl
          | cons second others =>
              have repeated := first_header rest continued
              have named : second.prevHeaderHash = hashXdr header := linked.2.1
              rw [named, tip, ← parent] at repeated
              exact absurd repeated (moves header)

theorem refused_keeps_tip {call : BlockCall World}
    (performed : perform phases hashXdr machine vm call = some (none, next)) :
    next.prevBlockHash = vm.prevBlockHash := by
  cases perform_cases performed with
  | refused tip => exact tip

/-- The chain of every run in which no header follows a proposal is linked; when
no header hashes to its own parent, no other run is. -/
theorem chain_linked_iff (phases : Phases World) (hashXdr : BlockHeader → Hash)
    (machine : Machine) (start : Vm World) (calls : List (BlockCall World)) :
    (ProposalsLast calls → ChainLinked phases hashXdr machine start calls) ∧
    (start.currentBlockContext.isSome = true →
      (∀ header, hashXdr header ≠ header.prevHeaderHash) →
      ChainLinked phases hashXdr machine start calls → ProposalsLast calls) := by
  constructor
  · intro last
    refine ⟨fun headers final returned => linked_of_proposals_last calls last returned, ?_⟩
    intro before call after headers middle next _ _ performed
    exact refused_keeps_tip performed
  · intro initialized moves chain
    obtain ⟨headers, final, returned⟩ := run_calls_returns calls initialized
    exact proposals_last_of_linked calls moves returned (chain.linked headers final returned)

def emptyPhases : Phases Unit where
  finalizeTxSet := id
  mergeLogs := id
  commitContracts _ := id
  commitModifications := id
  rewindContracts := id
  rewindModifications := id
  postBlockClear := id
  resetContext _ := id
  logKeys := id
  setTimestamp _ := id
  txSetHash _ := 0
  modifiedKeysHash _ := 0
  stateDbHash _ := 0
  contractDbHash _ := 0

/-- The machine after `init_default_genesis`. -/
def genesis : Vm Unit where
  world := ()
  currentBlockContext := some 0
  prevBlockHash := 0

theorem chain_linked_iff_proposal_last :
    ChainLinked emptyPhases (fun header => header.prevHeaderHash + 1) .virtualMachine genesis
      [.tryExecTxBlock () false, .tryExecTxBlock () true, .proposeTxBlock ()] := by
  apply (chain_linked_iff emptyPhases (fun header => header.prevHeaderHash + 1) .virtualMachine
    genesis [.tryExecTxBlock () false, .tryExecTxBlock () true, .proposeTxBlock ()]).1
  intro call impossible
  exact absurd impossible List.not_mem_nil

/-- The second of two proposals names the parent of the first. -/
theorem proposals_share_parent : ¬ ∀ (phases : Phases Unit) (hashXdr : BlockHeader → Hash)
    (machine : Machine) (start : Vm Unit) (calls : List (BlockCall Unit)),
    ChainLinked phases hashXdr machine start calls := by
  intro claimed
  have chain := claimed emptyPhases (fun header => header.prevHeaderHash + 1) .virtualMachine
    genesis [.proposeTxBlock (), .proposeTxBlock ()]
  have linked := chain.linked _ _ rfl
  have parent : (0 : Hash) = 0 + 1 := linked.2.1
  exact absurd parent (by decide)

end Vm

end Scs
