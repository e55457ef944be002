import Scs.ContractDb.ContractDBProxy
import Scs.StorageProxy.StorageProxy

/-!
# The calls of one transaction (`transaction_context/transaction_context.cc`)

The contracts that a transaction invokes are a program: what they do next is a
function of the results of their calls so far. Only the calls that reach the
storage proxy or the contract proxy are told apart.
-/

namespace Scs

set_option autoImplicit false

inductive ProxyCall where
  | get (key : AddressAndKey)
  | rawMemoryWrite (key : AddressAndKey) (bytes : RawMemoryStorage)
  | nonnegativeInt64SetAdd (key : AddressAndKey) (setValue deltaValue : Int64)
  | nonnegativeInt64Add (key : AddressAndKey) (deltaValue : Int64)
  | deleteObjectLast (key : AddressAndKey)
  | hashsetInsert (key : AddressAndKey) (h : Hash) (threshold : UInt64)
  | hashsetIncreaseLimit (key : AddressAndKey) (limit : UInt32)
  | hashsetClear (key : AddressAndKey) (threshold : UInt64)
  | assetAdd (key : AddressAndKey) (d : Int64)
  | getScript (address : Address)
  | createContract (contract : Contract)
  | deployContract (senderAddress : Address) (contractHash : Hash) (nonce : UInt64)

inductive CallResult where
  | value (object : Option StorageObject)
  | done
  | script (view : RunnableScriptView)
  | created (h : Hash)
  | deployed (address : Option Address)
  deriving DecidableEq, Repr

/-- What the contracts do next. They trap on a `HostError` of their own. -/
inductive ProgramStep where
  | call (next : ProxyCall)
  | returns
  | traps (what : String)

abbrev Program := List CallResult → ProgramStep

inductive ContextStatus where
  | running
  | returned
  | threw (thrown : Thrown)
  deriving DecidableEq, Repr

structure TransactionContext where
  results : List CallResult
  storageProxy : StorageProxy
  contractDbProxy : ContractDBProxy
  status : ContextStatus

namespace TransactionContext

def start : TransactionContext where
  results := []
  storageProxy := .empty
  contractDbProxy := .empty
  status := .running

variable (library : ContractLibrary) (committed : CommittedValues) (contractDb : ContractDB)

def written (context : TransactionContext) (result : Except Thrown StorageProxy) :
    Except Thrown (CallResult × TransactionContext) :=
  result.map fun storageProxy => (.done, { context with storageProxy := storageProxy })

def perform (context : TransactionContext) :
    ProxyCall → Except Thrown (CallResult × TransactionContext)
  | .get key =>
      let (object, storageProxy) := context.storageProxy.get committed key
      .ok (.value object, { context with storageProxy := storageProxy })
  | .rawMemoryWrite key bytes =>
      context.written (context.storageProxy.rawMemoryWrite committed key bytes)
  | .nonnegativeInt64SetAdd key setValue deltaValue =>
      context.written
        (context.storageProxy.nonnegativeInt64SetAdd committed key setValue deltaValue)
  | .nonnegativeInt64Add key deltaValue =>
      context.written (context.storageProxy.nonnegativeInt64Add committed key deltaValue)
  | .deleteObjectLast key =>
      context.written (context.storageProxy.deleteObjectLast committed key)
  | .hashsetInsert key h threshold =>
      context.written (context.storageProxy.hashsetInsert committed key h threshold)
  | .hashsetIncreaseLimit key limit =>
      context.written (context.storageProxy.hashsetIncreaseLimit committed key limit)
  | .hashsetClear key threshold =>
      context.written (context.storageProxy.hashsetClear committed key threshold)
  | .assetAdd key d => context.written (context.storageProxy.assetAdd committed key d)
  | .getScript address =>
      match context.contractDbProxy.getScript contractDb address with
      | .ok view => .ok (.script view, context)
      | .error fault => .error (.other fault)
  | .createContract contract =>
      let (h, contractDbProxy) := context.contractDbProxy.createContract library contract
      .ok (.created h, { context with contractDbProxy := contractDbProxy })
  | .deployContract senderAddress contractHash nonce =>
      let (address, contractDbProxy) := context.contractDbProxy.deployContract library contractDb
        senderAddress contractHash nonce
      .ok (.deployed address, { context with contractDbProxy := contractDbProxy })

def advance (program : Program) (context : TransactionContext) : TransactionContext :=
  match context.status with
  | .running =>
      match program context.results with
      | .returns => { context with status := .returned }
      | .traps what => { context with status := .threw (.hostError what) }
      | .call next =>
          match context.perform library committed contractDb next with
          | .ok (result, after) => { after with results := context.results ++ [result] }
          | .error thrown => { context with status := .threw thrown }
  | _ => context

inductive AdvanceCases (program : Program) (context : TransactionContext) :
    TransactionContext → Prop
  | stopped (status : context.status ≠ .running) : AdvanceCases program context context
  | returned (status : context.status = .running) (halts : program context.results = .returns) :
      AdvanceCases program context { context with status := .returned }
  | threw {thrown : Thrown} (status : context.status = .running) :
      AdvanceCases program context { context with status := .threw thrown }
  | performed {next : ProxyCall} {result : CallResult} {after : TransactionContext}
      (status : context.status = .running) (called : program context.results = .call next)
      (returned : context.perform library committed contractDb next = .ok (result, after)) :
      AdvanceCases program context { after with results := context.results ++ [result] }

variable {library committed contractDb}

theorem advance_cases (program : Program) (context : TransactionContext) :
    AdvanceCases library committed contractDb program context
      (context.advance library committed contractDb program) := by
  unfold advance
  split
  · rename_i running
    split
    · rename_i halts
      exact .returned running halts
    · exact .threw running
    · rename_i called
      split
      · rename_i returned
        exact .performed running called returned
      · exact .threw running
  · rename_i stopped
    exact .stopped stopped

theorem perform_status {context after : TransactionContext} {next : ProxyCall}
    {result : CallResult}
    (returned : context.perform library committed contractDb next = .ok (result, after)) :
    after.status = context.status := by
  have written {storageProxy : Except Thrown StorageProxy}
      (returned : context.written storageProxy = .ok (result, after)) :
      after.status = context.status := by
    cases storageProxy with
    | error thrown => cases returned
    | ok storageProxy =>
        cases returned
        rfl
  cases next with
  | getScript address =>
      unfold perform at returned
      simp only at returned
      split at returned
      · cases returned
        rfl
      · cases returned
  | get key =>
      cases returned
      rfl
  | createContract contract =>
      cases returned
      rfl
  | deployContract senderAddress contractHash nonce =>
      cases returned
      rfl
  | _ => exact written returned

end TransactionContext

end Scs
