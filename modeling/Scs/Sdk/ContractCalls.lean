import Scs.Library.Bytes
import Scs.Library.Interaction
import Scs.TransactionContext.KeyCalls
import Scs.TransactionContext.SnapshotReads

/-!
# Contracts over the SDK (`cpp_contracts/sdk`)

A contract function is the storage calls that it makes. A transaction calls the
functions of many contracts; on the keys of one contract, the calls of a transaction
that returns are those of the invocations of that contract, one after the other.
-/

namespace Scs

set_option autoImplicit false

open Bytes Interaction Lockstep Runs TwoPhase

/-! ## Functions of the SDK -/

abbrev ContractM := Interaction ProxyCall CallResult Thrown

section Sdk

variable {Value : Type}

def contractAbort : ContractM Value := .throws (.hostError "abort")

def contractCall (next : ProxyCall) : ContractM CallResult := .asks next .done

def storedBody : CallResult → Option ObjectBody
  | .value object => object.map StorageObject.body
  | _ => none

def int64Add (key : AddressAndKey) (delta : Int64) : ContractM Unit := do
  let _ ← contractCall (.nonnegativeInt64Add key delta)
  pure ()

/-- `int64_get`, with the default of a key that holds nothing. -/
def int64Get (key : AddressAndKey) : ContractM Int64 := do
  match storedBody (← contractCall (.get key)) with
  | none => pure 0
  | some (.nonnegativeInt64 value) => pure value
  | some _ => .throws (.hostError "type mismatch in raw mem get")

def setRawMemory (key : AddressAndKey) (value : RawMemoryStorage) : ContractM Unit := do
  let _ ← contractCall (.rawMemoryWrite key value)
  pure ()

def getRawMemoryOpt (key : AddressAndKey) : ContractM (Option (List UInt8)) := do
  match storedBody (← contractCall (.get key)) with
  | none => pure none
  | some (.rawMemoryStorage raw) => pure (some raw.data)
  | some _ => .throws (.hostError "type mismatch in raw mem get")

def getRawMemory (key : AddressAndKey) : ContractM (List UInt8) := do
  match ← getRawMemoryOpt key with
  | none => contractAbort
  | some data => pure data

/-- `make_static_key`: four words, each with its lowest byte first. -/
def makeStaticKey (a b c d : UInt64) : InvariantKey :=
  BitVec.ofNat 256 (fromBigEndian (wordBytes a ++ wordBytes b ++ wordBytes c ++ wordBytes d))

end Sdk

section Makes

variable {Value : Type} {value : Value} {calls : List ProxyCall}

theorem contract_abort_makes : ¬ Makes value calls contractAbort := by
  intro impossible
  cases impossible

theorem contract_call_makes {next : ProxyCall} {result : CallResult}
    (made : Makes result calls (contractCall next)) : calls = [next] := by
  cases made with
  | answered answer later =>
      cases later
      rfl

theorem int64_add_makes {key : AddressAndKey} {delta : Int64}
    (made : Makes () calls (int64Add key delta)) : calls = [.nonnegativeInt64Add key delta] := by
  obtain ⟨_, earlier, later, rfl, first, second⟩ := makes_bind.mp made
  rw [contract_call_makes first, (makes_pure.mp second).1]
  rfl

theorem set_raw_memory_makes {key : AddressAndKey} {stored : RawMemoryStorage}
    (made : Makes () calls (setRawMemory key stored)) : calls = [.rawMemoryWrite key stored] := by
  obtain ⟨_, earlier, later, rfl, first, second⟩ := makes_bind.mp made
  rw [contract_call_makes first, (makes_pure.mp second).1]
  rfl

theorem int64_get_makes {key : AddressAndKey} {read : Int64}
    (made : Makes read calls (int64Get key)) : calls = [.get key] := by
  obtain ⟨answer, earlier, later, rfl, first, second⟩ := makes_bind.mp made
  rw [contract_call_makes first]
  split at second
  · rw [(makes_pure.mp second).1]
    rfl
  · rw [(makes_pure.mp second).1]
    rfl
  · cases second

theorem get_raw_memory_opt_makes {key : AddressAndKey} {data : Option (List UInt8)}
    (made : Makes data calls (getRawMemoryOpt key)) : calls = [.get key] := by
  obtain ⟨answer, earlier, later, rfl, first, second⟩ := makes_bind.mp made
  rw [contract_call_makes first]
  split at second
  · rw [(makes_pure.mp second).1]
    rfl
  · rw [(makes_pure.mp second).1]
    rfl
  · cases second

theorem get_raw_memory_makes {key : AddressAndKey} {data : List UInt8}
    (made : Makes data calls (getRawMemory key)) : calls = [.get key] := by
  obtain ⟨answer, earlier, later, rfl, first, second⟩ := makes_bind.mp made
  rw [get_raw_memory_opt_makes first]
  split at second
  · exact absurd second contract_abort_makes
  · rw [(makes_pure.mp second).1]
    rfl

end Makes

/-! ## The calls at one address -/

def ProxyCall.contract? (call : ProxyCall) : Option Address :=
  call.key?.map fun key => key.extractLsb' 256 256

def callsAt (self : Address) (calls : List ProxyCall) : List ProxyCall :=
  calls.filter fun call => call.contract? = some self

theorem mem_calls_at {self : Address} {calls : List ProxyCall} {call : ProxyCall}
    {key : AddressAndKey} (member : call ∈ calls) (own : call.key? = some key)
    (at_self : key.extractLsb' 256 256 = self) : call ∈ callsAt self calls := by
  refine List.mem_filter.mpr ⟨member, decide_eq_true ?_⟩
  rw [ProxyCall.contract?, own, Option.map_some, at_self]

theorem calls_on_of_made {program : Program} {results : List CallResult} {key : AddressAndKey}
    {permits : ProxyCall → Prop} (ended : program results = .returns)
    (permitted : ∀ call ∈ program.made results, call.key? = some key → permits call) :
    program.CallsOn key permits results := by
  intro earlier before next called own
  apply permitted next _ own
  have start := List.prefix_iff_eq_take.mp before
  have shorter : earlier.length < results.length := by
    apply lt_of_le_of_ne before.length_le
    intro same
    rw [before.eq_of_length same, ended] at called
    cases called
  refine List.mem_filterMap.mpr ⟨earlier.length, List.mem_range.mpr shorter, ?_⟩
  rw [← start, called]
  rfl

theorem advance_ended {library : ContractLibrary} {committed : CommittedValues}
    {contractDb : ContractDB} {program : Program} {context : TransactionContext}
    (kept : context.status = .returned → program context.results = .returns)
    (returned : (context.advance library committed contractDb program).status = .returned) :
    program (context.advance library committed contractDb program).results = .returns := by
  have cases : TransactionContext.AdvanceCases library committed contractDb program context
      (context.advance library committed contractDb program) :=
    TransactionContext.advance_cases program context
  generalize context.advance library committed contractDb program = final at cases returned
  cases cases with
  | stopped status => exact kept returned
  | returned status halts => exact halts
  | threw status => cases returned
  | performed status called performed =>
      have still := TransactionContext.perform_status performed
      rw [status] at still
      simp only [still] at returned
      cases returned

theorem returned_ended {cryptoShorthash : CryptoShorthash} {library : ContractLibrary}
    {Tx Database : Type} [DecidableEq Tx] {store : StateStore Database} {programs : Tx → Program}
    {before : GlobalContext Database} {moves : List (BlockMove Tx)}
    {block : BlockExecution Tx Database} (steady : SteadyStore store)
    (run : Run (MovesBlock cryptoShorthash library store programs) (.start before) moves block)
    {tx : Tx} (returned : (block.contexts tx).status = .returned) :
    programs tx (block.contexts tx).results = .returns := by
  refine context_invariant steady run tx (fun context => context.status = .returned →
    programs tx context.results = .returns) ?_ ?_ returned
  · intro impossible
    cases impossible
  · exact fun context => advance_ended

/-- The calls of invocations that have returned, one after the other. -/
inductive Serves {Method : Type} (run : Method → ContractM Unit) :
    List Method → List ProxyCall → Prop
  | idle : Serves run [] []
  | invoked {methods : List Method} {earlier calls : List ProxyCall} {method : Method}
      (before : Serves run methods earlier) (made : Makes () calls (run method)) :
      Serves run (methods ++ [method]) (earlier ++ calls)

theorem own_contract (self : Address) (key : InvariantKey) :
    (self ++ key).extractLsb' 256 256 = self := by
  ext position bound
  have above : ¬ 256 + position < 256 := by omega
  rw [BitVec.getElem_extractLsb', BitVec.getLsbD_append, if_neg above, Nat.add_sub_cancel_left,
    BitVec.getLsbD_eq_getElem bound]

def makesCalls (calls : List ProxyCall) : Program := fun results =>
  match calls[results.length]? with
  | some next => .call next
  | none => .returns

theorem made_makes_calls (calls : List ProxyCall) (results : List CallResult) :
    (makesCalls calls).made results = calls.take results.length := by
  induction results using List.reverseRecOn with
  | nil => rfl
  | append_singleton earlier last induction =>
      have next : (makesCalls calls earlier).call? = calls[earlier.length]? := by
        unfold makesCalls
        cases calls[earlier.length]? <;> rfl
      rw [Program.made_snoc, induction, next, List.length_append, List.length_singleton,
        List.take_add_one]

end Scs
