import Scs.Xdr.Storage

/-!
# Producing and accepting blocks (`vm/base_vm.cc` and its three machines)

The databases, the transaction set and the key log of a machine are a world of
any type; the phases of a block act on it. What stays with the machine is its
block number and the hash of the chain tip.
-/

namespace Scs

set_option autoImplicit false

structure BlockHeader where
  blockNumber : UInt64
  prevHeaderHash : Hash
  txSetHash : Hash
  modifiedKeysHash : Hash
  stateDbHash : Hash
  contractDbHash : Hash
  deriving DecidableEq, Repr

/-- The steps that end a block, and the hashes that its header takes. -/
structure Phases (World : Type) where
  finalizeTxSet : World → World
  mergeLogs : World → World
  commitContracts : UInt64 → World → World
  commitModifications : World → World
  rewindContracts : World → World
  rewindModifications : World → World
  postBlockClear : World → World
  resetContext : UInt64 → World → World
  logKeys : World → World
  setTimestamp : UInt64 → World → World
  txSetHash : World → Hash
  modifiedKeysHash : World → Hash
  stateDbHash : World → Hash
  contractDbHash : World → Hash

inductive Machine where
  | virtualMachine
  | groundhog
  | sisyphus
  deriving DecidableEq, Repr

structure Vm (World : Type) where
  world : World
  currentBlockContext : Option UInt64
  prevBlockHash : Hash

/-- A call on the machine, with the world that its executions leave and, for a
validation, whether all of them succeeded. -/
inductive BlockCall (World : Type) where
  | tryExecTxBlock (executed : World) (valid : Bool)
  | proposeTxBlock (assembled : World)

namespace Vm

variable {World : Type} (phases : Phases World) (hashXdr : BlockHeader → Hash)

def mergeLogs (machine : Machine) (world : World) : World :=
  if machine = .sisyphus then world else phases.mergeLogs world

def phaseFinishBlock (machine : Machine) (blockNumber : UInt64) (world : World) : World :=
  phases.postBlockClear (phases.commitModifications (phases.commitContracts blockNumber
    (mergeLogs phases machine (phases.finalizeTxSet world))))

def phaseUndoBlock (machine : Machine) (world : World) : World :=
  phases.postBlockClear (phases.rewindModifications (phases.rewindContracts
    (mergeLogs phases machine world)))

def makeBlockHeader (blockNumber : UInt64) (prevBlockHash : Hash) (world : World) :
    BlockHeader where
  blockNumber := blockNumber
  prevHeaderHash := prevBlockHash
  txSetHash := phases.txSetHash world
  modifiedKeysHash := phases.modifiedKeysHash world
  stateDbHash := phases.stateDbHash world
  contractDbHash := phases.contractDbHash world

def advanceBlockNumber (blockNumber : UInt64) (vm : Vm World) : Vm World :=
  { vm with
    world := phases.resetContext (blockNumber + 1) vm.world
    currentBlockContext := some (blockNumber + 1) }

/-- `BaseVirtualMachine::try_exec_tx_block`; `none` when the machine is not
initialized. -/
def baseTryExecTxBlock (machine : Machine) (executed : World) (valid : Bool) (vm : Vm World) :
    Option (Option BlockHeader × Vm World) := do
  let blockNumber ← vm.currentBlockContext
  if valid then
    let finished := phaseFinishBlock phases machine blockNumber executed
    let out := makeBlockHeader phases blockNumber vm.prevBlockHash finished
    some (some out, advanceBlockNumber phases blockNumber
      { vm with world := finished, prevBlockHash := hashXdr out })
  else
    some (none, advanceBlockNumber phases blockNumber
      { vm with world := phaseUndoBlock phases machine executed })

/-- The keys are persisted under the number of the block that is now current. -/
def logAndStamp (vm : Vm World) : Vm World :=
  { vm with
    world := phases.setTimestamp (vm.currentBlockContext.getD 0) (phases.logKeys vm.world) }

def stamp (vm : Vm World) : Vm World :=
  { vm with world := phases.setTimestamp (vm.currentBlockContext.getD 0) vm.world }

def tryExecTxBlock (machine : Machine) (executed : World) (valid : Bool) (vm : Vm World) :
    Option (Option BlockHeader × Vm World) := do
  let (out, after) ← baseTryExecTxBlock phases hashXdr machine executed valid vm
  match machine, out with
  | .virtualMachine, _ => some (out, after)
  | .groundhog, some header => some (some header, logAndStamp phases after)
  | .groundhog, none => some (none, after)
  | .sisyphus, some header => some (some header, logAndStamp phases after)
  | .sisyphus, none => some (none, stamp phases after)

/-- `propose_tx_block` of the three machines. The header takes the hashes of the
transaction set and of the key log before the databases commit, and none of the
three writes `prev_block_hash`. -/
def proposeTxBlock (machine : Machine) (assembled : World) (vm : Vm World) :
    Option (Option BlockHeader × Vm World) := do
  let blockNumber ← vm.currentBlockContext
  let finalized := phases.finalizeTxSet (mergeLogs phases machine assembled)
  let committed := phases.postBlockClear (phases.commitModifications
    (phases.commitContracts blockNumber finalized))
  let out : BlockHeader :=
    { blockNumber := blockNumber
      prevHeaderHash := vm.prevBlockHash
      txSetHash := phases.txSetHash finalized
      modifiedKeysHash := phases.modifiedKeysHash finalized
      stateDbHash := phases.stateDbHash committed
      contractDbHash := phases.contractDbHash committed }
  let after := advanceBlockNumber phases blockNumber { vm with world := committed }
  some (some out, if machine = .virtualMachine then after else logAndStamp phases after)

def perform (machine : Machine) (vm : Vm World) :
    BlockCall World → Option (Option BlockHeader × Vm World)
  | .tryExecTxBlock executed valid => tryExecTxBlock phases hashXdr machine executed valid vm
  | .proposeTxBlock assembled => proposeTxBlock phases machine assembled vm

def runCalls (machine : Machine) : Vm World → List (BlockCall World) →
    Option (List BlockHeader × Vm World)
  | vm, [] => some ([], vm)
  | vm, call :: rest => do
      let (out, next) ← perform phases hashXdr machine vm call
      let (headers, final) ← runCalls machine next rest
      some (out.toList ++ headers, final)

end Vm

end Scs
