import Scs.Library.Interaction
import Scs.TransactionContext.Syscalls
import Scs.TransactionContext.TransactionContext

/-!
# The execution of one transaction (`transaction_context/execution_context.cc`)

The runtimes of the invoked contracts run until they call into the host. The
handler of a syscall asks the proxies of the transaction, reads and writes the
memory of the runtime on top of the stack, and consumes gas.
-/

namespace Scs

set_option autoImplicit false

/-! ## The runtime and the other libraries -/

inductive RuntimeEvent where
  | syscall (callno arg0 arg1 arg2 arg3 arg4 arg5 : UInt64)
  | gas (gas : UInt64)
  | memcmp (lhs rhs sz : UInt32)
  | memset (ptr val len : UInt32)
  | memcpy (dst src len : UInt32)
  | strnlen (ptr maxLen : UInt32)
  | returned
  | trapped (what : String)

/-- `wasm_api::WasmRuntime` and the context that makes it with its functions
linked. Every exception is a `HostError`. -/
structure WasmApi (Runtime : Type) where
  newRuntimeInstance : RunnableScriptView → Except String (Option Runtime)
  invoke : String → Runtime → Except String Runtime
  next : Runtime → RuntimeEvent
  resume : UInt64 → Runtime → Runtime
  loadFromMemory : UInt32 → (len : UInt32) → Runtime → Except String (Vector UInt8 len.toNat)
  loadFromMemoryToConstSizeBuf : (width : ℕ) → UInt32 → Runtime → Except String (BitVec width)
  writeToMemory : List UInt8 → UInt32 → UInt32 → Runtime → Except String Runtime
  writeSliceToMemory : List UInt8 → UInt32 → UInt32 → UInt32 → Runtime → Except String Runtime
  memcmp : UInt32 → UInt32 → UInt32 → Runtime → Except String Int32
  memset : UInt32 → UInt32 → UInt32 → Runtime → Except String (UInt32 × Runtime)
  safeMemcpy : UInt32 → UInt32 → UInt32 → Runtime → Except String (UInt32 × Runtime)
  safeStrlen : UInt32 → UInt32 → Runtime → Except String UInt32

/-- The runtime, and what a transaction computes without its proxies. -/
structure Host (Runtime : Type) where
  wasm : WasmApi Runtime
  hashTransaction : Transaction → Hash
  hashXdr : List UInt8 → Hash
  checkSigEd25519 : BitVec 256 → BitVec 512 → List UInt8 → Bool

structure Submission where
  txHash : Hash
  tx : SignedTransaction
  currentBlock : UInt64

/-! ## The state of an execution -/

/-- What the native stack holds of an `INVOKE` while its subroutine runs: where to copy the
return data, and whom to return to. -/
structure InvokeFrame where
  runtime : Address
  returnAddr : UInt32
  returnLen : UInt32

/-- The innermost invocation heads each stack. A runtime is pointed to by its
address in the map. -/
structure ExecutionContext (Runtime : Type) where
  activeRuntimes : Address → Option Runtime
  invocationStack : List MethodInvocation
  runtimeStack : List Address
  invokeFrames : List InvokeFrame
  gasUsed : UInt64
  returnBuf : List UInt8
  logs : List (List UInt8)

abbrev HandlerM (Runtime : Type) :=
  Handler (ExecutionContext Runtime) ProxyCall CallResult Thrown

def CallResult.object? : CallResult → Option StorageObject
  | .value object => object
  | _ => none

def CallResult.view : CallResult → RunnableScriptView
  | .script view => view
  | _ => nullScript

def CallResult.hash : CallResult → Hash
  | .created h => h
  | _ => 0

def CallResult.address? : CallResult → Option Address
  | .deployed address => address
  | _ => none

namespace ExecutionContext

variable {Runtime : Type}

def start : ExecutionContext Runtime where
  activeRuntimes _ := none
  invocationStack := []
  runtimeStack := []
  invokeFrames := []
  gasUsed := 0
  returnBuf := []
  logs := []

def setRuntime (pointer : Address) (runtime : Runtime) (context : ExecutionContext Runtime) :
    ExecutionContext Runtime :=
  { context with activeRuntimes := Function.update context.activeRuntimes pointer (some runtime) }

def pushInvocationStack (pointer : Address) (invocation : MethodInvocation)
    (context : ExecutionContext Runtime) : ExecutionContext Runtime :=
  { context with
    invocationStack := invocation :: context.invocationStack
    runtimeStack := pointer :: context.runtimeStack }

def popInvocationStack (context : ExecutionContext Runtime) : ExecutionContext Runtime :=
  { context with
    invocationStack := context.invocationStack.tail
    runtimeStack := context.runtimeStack.tail }

end ExecutionContext

section Operations

variable {Runtime Value : Type}

def hostError (what : String) : HandlerM Runtime Value := Handler.raise (.hostError what)

def fromLibrary : Except String Value → HandlerM Runtime Value
  | .ok value => pure value
  | .error what => hostError what

def getCurrentRuntime : HandlerM Runtime Address := do
  match (← get).runtimeStack with
  | [] =>
      Handler.raise
        (.other (.runtimeError "no active runtime during get_current_runtime() call"))
  | pointer :: _ => pure pointer

/-- Follows a pointer; the map has an entry for every pointer that is taken. -/
def deref (pointer : Address) : HandlerM Runtime Runtime := do
  match (← get).activeRuntimes pointer with
  | none => Handler.raise (.other .outOfRange)
  | some runtime => pure runtime

/-- The back of the invocation stack, which is not empty where it is read. -/
def getCurrentMethodInvocation : HandlerM Runtime MethodInvocation := do
  match (← get).invocationStack with
  | [] => Handler.raise (.other .outOfRange)
  | invocation :: _ => pure invocation

def getMsgSender : HandlerM Runtime Address := do
  match (← get).invocationStack with
  | _ :: sender :: _ => pure sender.addr
  | _ => hostError "no sender on root tx"

def consumeGas (input : Submission) (consumedGas : UInt64) : HandlerM Runtime Unit := do
  let gasUsed := (← get).gasUsed
  if UInt64.size ≤ gasUsed.toNat + consumedGas.toNat then
    hostError "gas consumption overflow"
  modify fun context => { context with gasUsed := gasUsed + consumedGas }
  if input.tx.tx.gasLimit ≤ gasUsed + consumedGas then
    hostError "gas limit reached"

def getStorageKey (key : InvariantKey) : HandlerM Runtime AddressAndKey := do
  let invocation ← getCurrentMethodInvocation
  pure (invocation.addr ++ key)

def getDeployableContract (input : Submission) (index : UInt32) : HandlerM Runtime Contract :=
  match input.tx.tx.contractsToDeploy[index.toNat]? with
  | none => Handler.raise (.other (.runtimeError "invalid contract access"))
  | some contract => pure contract

def getNumDeployableContracts (input : Submission) : UInt32 :=
  UInt32.ofNat input.tx.tx.contractsToDeploy.length

def getWitness (input : Submission) (witIdx : UInt64) : HandlerM Runtime WitnessEntry :=
  match input.tx.witnesses.find? fun witness => witness.key = witIdx with
  | none => hostError "witness not found"
  | some witness => pure witness

variable (host : Host Runtime)

def loadFromMemory (pointer : Address) (offset len : UInt32) :
    HandlerM Runtime (Vector UInt8 len.toNat) := do
  fromLibrary (host.wasm.loadFromMemory offset len (← deref pointer))

def loadFromMemoryConstsize (width : ℕ) (pointer : Address) (offset : UInt32) :
    HandlerM Runtime (BitVec width) := do
  fromLibrary (host.wasm.loadFromMemoryToConstSizeBuf width offset (← deref pointer))

def writeToMemory (pointer : Address) (buf : List UInt8) (offset len : UInt32) :
    HandlerM Runtime Unit := do
  let runtime ← fromLibrary (host.wasm.writeToMemory buf offset len (← deref pointer))
  modify (·.setRuntime pointer runtime)

def loadStorageKey (pointer : Address) (offset : UInt32) : HandlerM Runtime AddressAndKey := do
  getStorageKey (← loadFromMemoryConstsize host 256 pointer offset)

def resume (pointer : Address) (ret : UInt64) : HandlerM Runtime Unit := do
  let runtime ← deref pointer
  modify (·.setRuntime pointer (host.wasm.resume ret runtime))

/-- The part of `invoke_subroutine` for a contract without an active runtime. -/
def createRuntime (addr : Address) : HandlerM Runtime Unit := do
  let script ← Handler.ask (.getScript addr)
  match ← fromLibrary (host.wasm.newRuntimeInstance script.view) with
  | none => hostError "cannot find target address"
  | some runtime => modify (·.setRuntime addr runtime)

def invokeSubroutine (invocation : MethodInvocation) : HandlerM Runtime Unit := do
  if ((← get).activeRuntimes invocation.addr).isNone then
    createRuntime host invocation.addr
  let runtime ← deref invocation.addr
  modify (·.pushInvocationStack invocation.addr invocation)
  let running ← fromLibrary (host.wasm.invoke invocation.getInvocableMethodname runtime)
  modify (·.setRuntime invocation.addr running)

end Operations

/-! ## The handler -/

section SyscallHandler

variable {Runtime : Type} (host : Host Runtime) (input : Submission)

def minSize (limit : UInt32) (size : ℕ) : UInt32 := min (UInt32.ofNat size) limit

def requireHashSet (object : Option StorageObject) (typeMismatch : String) :
    HandlerM Runtime HashSet :=
  match object with
  | none => hostError "key nexist (no hashset)"
  | some object =>
      match object.body with
      | .hashSet set => pure set
      | _ => hostError typeMismatch

def hashSetNumber (object : Option StorageObject) (typeMismatch : String)
    (number : HashSet → UInt64) : HandlerM Runtime UInt64 :=
  match object with
  | none => pure 0
  | some object =>
      match object.body with
      | .hashSet set => pure (number set)
      | _ => hostError typeMismatch

/-- `invoke_subroutine` and the part of `INVOKE` before it. -/
def handleInvoke (pointer : Address) (arg0 arg1 arg2 arg3 arg4 arg5 : UInt64) :
    HandlerM Runtime Unit := do
  let calldataLen := arg3.toUInt32
  let returnLen := arg5.toUInt32
  consumeGas input (gasInvoke (calldataLen + returnLen).toUInt64)
  let addr ← loadFromMemoryConstsize host 256 pointer arg0.toUInt32
  let calldata ← loadFromMemory host pointer arg2.toUInt32 calldataLen
  invokeSubroutine host { addr, methodName := arg1.toUInt32, calldata := calldata.toList }
  modify fun context =>
    { context with
      invokeFrames :=
        { runtime := pointer, returnAddr := arg4.toUInt32, returnLen } :: context.invokeFrames }

/-- The part of `INVOKE` after its subroutine. -/
def finishInvoke (frame : InvokeFrame) : HandlerM Runtime UInt64 := do
  let returnBuf := (← get).returnBuf
  let returnLen := minSize frame.returnLen returnBuf.length
  if 0 < returnLen then
    writeToMemory host frame.runtime returnBuf frame.returnAddr returnLen
  modify fun context => { context with returnBuf := [] }
  pure returnLen.toUInt64

/-- What a syscall returns; `none` while its subroutine runs. -/
def syscallHandler (pointer : Address) (syscall : Syscall)
    (arg0 arg1 arg2 arg3 arg4 arg5 : UInt64) : HandlerM Runtime (Option UInt64) :=
  match syscall with
  | .exit => hostError "sys exit unimplemented in Wasm3"
  | .write | .writeBytes => do
      let _ ← loadFromMemory host pointer arg0.toUInt32 arg1.toUInt32
      pure (some 0)
  | .log => do
      let logLen := arg1.toUInt32
      consumeGas input (gasLog logLen.toUInt64)
      let log ← loadFromMemory host pointer arg0.toUInt32 logLen
      modify fun context => { context with logs := context.logs ++ [log.toList] }
      pure (some 0)
  | .invoke => do
      handleInvoke host input pointer arg0 arg1 arg2 arg3 arg4 arg5
      pure none
  | .getSender => do
      consumeGas input gasGetMsgSender
      let sender ← getMsgSender
      writeToMemory host pointer (arrayBytes sender) arg0.toUInt32 32
      pure (some 0)
  | .getSelfAddr => do
      consumeGas input gasGetSelfAddr
      let invocation ← getCurrentMethodInvocation
      writeToMemory host pointer (arrayBytes invocation.addr) arg0.toUInt32 32
      pure (some 0)
  | .getSrcTxHash => do
      consumeGas input gasGetSrcTxHash
      writeToMemory host pointer (arrayBytes input.txHash) arg0.toUInt32 32
      pure (some 0)
  | .getInvokedTxHash => do
      consumeGas input gasGetInvokedTxHash
      writeToMemory host pointer (arrayBytes (host.hashTransaction input.tx.tx)) arg0.toUInt32 32
      pure (some 0)
  | .getBlockNumber => do
      consumeGas input gasGetBlockNumber
      pure (some input.currentBlock)
  | .hasKey => do
      consumeGas input gasHasKey
      let key ← loadStorageKey host pointer arg0.toUInt32
      let result ← Handler.ask (.get key)
      pure (some (if result.object?.isSome then 1 else 0))
  | .rawMemSet => do
      let memLen := arg2.toUInt32
      consumeGas input (gasRawMemorySet memLen.toUInt64)
      let key ← loadStorageKey host pointer arg0.toUInt32
      if short : memLen.toNat ≤ rawMemoryMaxLen then
        let data ← loadFromMemory host pointer arg1.toUInt32 memLen
        let bytes : RawMemoryStorage :=
          { data := data.toList, bounded := data.length_toList.trans_le short }
        let _ ← Handler.ask (.rawMemoryWrite key bytes)
        pure (some 0)
      else
        hostError "mem write too long"
  | .rawMemGet => do
      let outputMaxLen := arg2.toUInt32
      consumeGas input (gasRawMemoryGet outputMaxLen.toUInt64)
      let key ← loadStorageKey host pointer arg0.toUInt32
      let result ← Handler.ask (.get key)
      match result.object?.map StorageObject.body with
      | none => pure (some (-1))
      | some (.rawMemoryStorage raw) =>
          let maxWriteLen := minSize outputMaxLen raw.data.length
          writeToMemory host pointer raw.data arg1.toUInt32 maxWriteLen
          pure (some maxWriteLen.toUInt64)
      | some _ => hostError "type mismatch in raw mem get"
  | .rawMemGetLen => do
      consumeGas input gasRawMemoryGetLen
      let key ← loadStorageKey host pointer arg0.toUInt32
      let result ← Handler.ask (.get key)
      match result.object?.map StorageObject.body with
      | none => pure (some (-1))
      | some (.rawMemoryStorage raw) => pure (some (UInt64.ofNat raw.data.length))
      | some _ => hostError "type mismatch in raw mem get"
  | .deleteKeyLast => do
      consumeGas input gasDeleteKeyLast
      let key ← loadStorageKey host pointer arg0.toUInt32
      let _ ← Handler.ask (.deleteObjectLast key)
      pure (some 0)
  | .nnintSetAdd => do
      consumeGas input gasNonnegativeInt64SetAdd
      let key ← loadStorageKey host pointer arg0.toUInt32
      let _ ← Handler.ask (.nonnegativeInt64SetAdd key arg1.toInt64 arg2.toInt64)
      pure (some 0)
  | .nnintAdd => do
      consumeGas input gasNonnegativeInt64Add
      let key ← loadStorageKey host pointer arg0.toUInt32
      let _ ← Handler.ask (.nonnegativeInt64Add key arg1.toInt64)
      pure (some 0)
  | .nnintGet => do
      consumeGas input gasNonnegativeInt64Get
      let key ← loadStorageKey host pointer arg0.toUInt32
      let result ← Handler.ask (.get key)
      match result.object?.map StorageObject.body with
      | none => pure (some 0)
      | some (.nonnegativeInt64 value) => pure (some value.toUInt64)
      | some _ => hostError "type mismatch in raw mem get"
  | .hsInsert => do
      consumeGas input gasHashsetInsert
      let key ← loadStorageKey host pointer arg0.toUInt32
      let h ← loadFromMemoryConstsize host 256 pointer arg1.toUInt32
      let _ ← Handler.ask (.hashsetInsert key h arg2)
      pure (some 0)
  | .hsIncLimit => do
      consumeGas input gasHashsetIncreaseLimit
      let key ← loadStorageKey host pointer arg0.toUInt32
      let _ ← Handler.ask (.hashsetIncreaseLimit key arg1.toUInt32)
      pure (some 0)
  | .hsClear => do
      consumeGas input gasHashsetClear
      let key ← loadStorageKey host pointer arg0.toUInt32
      let _ ← Handler.ask (.hashsetClear key arg1)
      pure (some 0)
  | .hsGetSize => do
      consumeGas input gasHashsetGetSize
      let key ← loadStorageKey host pointer arg0.toUInt32
      let result ← Handler.ask (.get key)
      let size ← hashSetNumber result.object? "type mismatch in hashset get_size" fun set =>
        UInt64.ofNat set.hashes.length
      pure (some size)
  | .hsGetMaxSize => do
      consumeGas input gasHashsetGetMaxSize
      let key ← loadStorageKey host pointer arg0.toUInt32
      let result ← Handler.ask (.get key)
      let maxSize ← hashSetNumber result.object? "type mismatch in hashset get_max_size"
        fun set => set.maxSize.toUInt64
      pure (some maxSize)
  | .hsGetIndexOf => do
      consumeGas input gasHashsetGetIndexOf
      let key ← loadStorageKey host pointer arg0.toUInt32
      let result ← Handler.ask (.get key)
      let set ← requireHashSet result.object? "type mismatch in hashset get_index_of"
      match set.hashes.findIdx? fun entry => entry.index = arg1 with
      | some position => pure (some (UInt64.ofNat position))
      | none => hostError "key nexist (not found)"
  | .hsGetIndex => do
      consumeGas input gasHashsetGetIndex
      let key ← loadStorageKey host pointer arg0.toUInt32
      let result ← Handler.ask (.get key)
      let set ← requireHashSet result.object? "type mismatch in hashset get_index_of_index"
      match set.hashes[arg1.toNat]? with
      | none => hostError "invalid hashset index"
      | some entry =>
          writeToMemory host pointer (arrayBytes entry.hash) arg2.toUInt32 32
          pure (some entry.index)
  | .contractCreate => do
      let contractIdx := arg0.toUInt32
      if getNumDeployableContracts input ≤ contractIdx then
        hostError "Invalid deployable contract access"
      else
        let contract ← getDeployableContract input contractIdx
        consumeGas input (gasCreateContract (UInt64.ofNat contract.length))
        let result ← Handler.ask (.createContract contract)
        writeToMemory host pointer (arrayBytes result.hash) arg1.toUInt32 32
        pure (some 0)
  | .contractDeploy => do
      consumeGas input gasDeployContract
      let contractHash ← loadFromMemoryConstsize host 256 pointer arg0.toUInt32
      let invocation ← getCurrentMethodInvocation
      let result ← Handler.ask (.deployContract invocation.addr contractHash arg1)
      match result.address? with
      | none => hostError "failed to deploy contract"
      | some deployAddr =>
          writeToMemory host pointer (arrayBytes deployAddr) arg2.toUInt32 32
          pure (some 0)
  | .witnessGet => do
      consumeGas input (gasGetWitness arg2)
      let witness ← getWitness input arg0
      writeToMemory host pointer witness.value arg1.toUInt32
        (minSize arg2.toUInt32 witness.value.length)
      pure (some (UInt64.ofNat witness.value.length))
  | .witnessGetLen => do
      consumeGas input gasGetWitnessLen
      let witness ← getWitness input arg0
      pure (some (UInt64.ofNat witness.value.length))
  | .getCalldata => do
      let sliceStart := arg1.toUInt32
      let invocation ← getCurrentMethodInvocation
      let sliceEnd := minSize arg2.toUInt32 invocation.calldata.length
      if sliceEnd ≤ sliceStart then
        hostError "invalid calldata params"
      consumeGas input (gasGetCalldata (sliceEnd - sliceStart).toUInt64)
      let current ← getCurrentRuntime
      let runtime ← fromLibrary (host.wasm.writeSliceToMemory invocation.calldata arg0.toUInt32
        sliceStart sliceEnd (← deref current))
      modify (·.setRuntime current runtime)
      pure (some 0)
  | .getCalldataLen => do
      consumeGas input gasGetCalldataLen
      let invocation ← getCurrentMethodInvocation
      pure (some (UInt64.ofNat invocation.calldata.length))
  | .returns => do
      let len := arg1.toUInt32
      consumeGas input (gasReturn len.toUInt64)
      let bytes ← loadFromMemory host pointer arg0.toUInt32 len
      modify fun context => { context with returnBuf := bytes.toList }
      pure (some 0)
  | .gas => do
      consumeGas input arg0
      pure (some (-1))
  | .hash => do
      consumeGas input gasHash
      let hashBuf ← loadFromMemory host pointer arg0.toUInt32 arg1.toUInt32
      writeToMemory host pointer (arrayBytes (host.hashXdr hashBuf.toList)) arg2.toUInt32 32
      pure (some 0)
  | .verifyEd25519 => do
      consumeGas input gasCheckSigEd25519
      let pk ← loadFromMemoryConstsize host 256 pointer arg0.toUInt32
      let sig ← loadFromMemoryConstsize host 512 pointer arg1.toUInt32
      let msg ← loadFromMemory host pointer arg2.toUInt32 arg3.toUInt32
      pure (some (if host.checkSigEd25519 pk sig msg.toList then 1 else 0))

/-- A call of the runtime into the host, or the end of its invocation. -/
def handleEvent (pointer : Address) : RuntimeEvent → HandlerM Runtime (Option UInt64)
  | .syscall callno arg0 arg1 arg2 arg3 arg4 arg5 =>
      match Syscall.ofCallno callno with
      | some syscall => syscallHandler host input pointer syscall arg0 arg1 arg2 arg3 arg4 arg5
      | none => hostError ("invalid syscall no: " ++ toString callno)
  | .gas gas => syscallHandler host input pointer .gas gas 0 0 0 0 0
  | .memcmp lhs rhs sz => do
      consumeGas input (gasMemcmp sz.toUInt64)
      let current ← getCurrentRuntime
      let order ← fromLibrary (host.wasm.memcmp lhs rhs sz (← deref current))
      pure (some order.toUInt32.toUInt64)
  | .memset ptr val len => do
      consumeGas input (gasMemset len.toUInt64)
      let current ← getCurrentRuntime
      let (ret, runtime) ← fromLibrary (host.wasm.memset ptr val len (← deref current))
      modify (·.setRuntime current runtime)
      pure (some ret.toUInt64)
  | .memcpy dst src len => do
      consumeGas input (gasMemcpy len.toUInt64)
      let current ← getCurrentRuntime
      let (ret, runtime) ← fromLibrary (host.wasm.safeMemcpy dst src len (← deref current))
      modify (·.setRuntime current runtime)
      pure (some ret.toUInt64)
  | .strnlen ptr maxLen => do
      consumeGas input (gasStrnlen maxLen.toUInt64)
      let current ← getCurrentRuntime
      let length ← fromLibrary (host.wasm.safeStrlen ptr maxLen (← deref current))
      pure (some length.toUInt64)
  | .returned => do
      modify ExecutionContext.popInvocationStack
      match (← get).invokeFrames with
      | [] => pure none
      | frame :: rest =>
          modify fun context => { context with invokeFrames := rest }
          let returnLen ← finishInvoke host frame
          resume host frame.runtime returnLen
          pure none
  | .trapped what => hostError what

/-- The runtime on top of the stack goes on to its next call into the host, or to
the end of its invocation. -/
def ExecutionContext.step : HandlerM Runtime Unit := do
  let pointer ← getCurrentRuntime
  let runtime ← deref pointer
  match ← handleEvent host input pointer (host.wasm.next runtime) with
  | some ret => resume host pointer ret
  | none => pure ()

end SyscallHandler

/-! ## Whole executions -/

section Execute

variable {Runtime : Type} (host : Host Runtime) (input : Submission)

/-- What an execution comes to while it waits for the answers of its proxies. -/
abbrev Execution (Runtime : Type) :=
  Interaction ProxyCall CallResult Thrown (Unit × ExecutionContext Runtime)

/-- The root invocation of `execute`, after some answers. It has returned once no
runtime is on the stack. -/
inductive Reaches : List CallResult → Execution Runtime → Prop
  | started :
      Reaches [] (invokeSubroutine host (.ofRoot input.tx.tx.invocation) .start)
  | stepped {results : List CallResult} {context : ExecutionContext Runtime}
      (reached : Reaches results (.done ((), context)))
      (running : context.runtimeStack ≠ []) :
      Reaches results (ExecutionContext.step host input context)
  | answered {results : List CallResult} {call : ProxyCall}
      {next : CallResult → Execution Runtime}
      (reached : Reaches results (.asks call next)) (answer : CallResult) :
      Reaches (results ++ [answer]) (next answer)

/-- The program of a transaction is what its root invocation asks, and how it ends. -/
structure Executes (program : Program) : Prop where
  asks : ∀ {results : List CallResult} {call : ProxyCall}
    {next : CallResult → Execution Runtime},
      Reaches host input results (.asks call next) → program results = .call call
  returns : ∀ {results : List CallResult} {context : ExecutionContext Runtime},
    Reaches host input results (.done ((), context)) → context.runtimeStack = [] →
      program results = .returns
  traps : ∀ {results : List CallResult} {what : String},
    Reaches host input results (.throws (.hostError what)) → program results = .traps what

end Execute

end Scs
