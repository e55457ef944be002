import Scs.ContractDb.ContractDB
import Scs.Xdr.Storage

/-!
# Syscalls and what they cost (`common/syscall_nos.h`, `builtin_fns/gas_costs.h`)
-/

namespace Scs

set_option autoImplicit false

/-! ## Signed transactions (`xdr/transaction.x`) -/

structure TransactionInvocation where
  invokedAddress : Address
  methodName : UInt32
  calldata : List UInt8

structure Transaction where
  invocation : TransactionInvocation
  gasLimit : UInt64
  gasRateBid : UInt64
  contractsToDeploy : List Contract

structure WitnessEntry where
  key : UInt64
  value : List UInt8

structure SignedTransaction where
  tx : Transaction
  witnesses : List WitnessEntry

/-! ## Method invocations (`transaction_context/method_invocation.cc`) -/

structure MethodInvocation where
  addr : Address
  methodName : UInt32
  calldata : List UInt8

namespace MethodInvocation

def ofRoot (rootInvocation : TransactionInvocation) : MethodInvocation where
  addr := rootInvocation.invokedAddress
  methodName := rootInvocation.methodName
  calldata := rootInvocation.calldata

def hexDigit (digit : ℕ) : Char := "0123456789ABCDEF".toList.getD digit '0'

/-- The bytes of the method name in hexadecimal, the lowest first. -/
def getInvocableMethodname (invocation : MethodInvocation) : String :=
  "pub" ++ String.ofList ((List.range 4).flatMap fun position =>
    let byte := invocation.methodName.toNat / 256 ^ position % 256
    [hexDigit (byte / 16), hexDigit (byte % 16)])

end MethodInvocation

/-! ## Syscall numbers -/

inductive Syscall where
  | exit | write | writeBytes
  | log | invoke | getSender | getSelfAddr | getSrcTxHash | getInvokedTxHash | getBlockNumber
  | hasKey
  | rawMemSet | rawMemGet | rawMemGetLen
  | deleteKeyLast
  | nnintSetAdd | nnintAdd | nnintGet
  | hsInsert | hsIncLimit | hsClear | hsGetSize | hsGetMaxSize | hsGetIndexOf | hsGetIndex
  | contractCreate | contractDeploy
  | witnessGet | witnessGetLen
  | returns | getCalldata | getCalldataLen
  | gas
  | hash | verifyEd25519
  deriving DecidableEq, Repr

def Syscall.ofCallno (callno : UInt64) : Option Syscall :=
  match callno.toUInt32.toNat with
  | 500 => some .exit
  | 501 => some .write
  | 502 => some .writeBytes
  | 600 => some .log
  | 601 => some .invoke
  | 602 => some .getSender
  | 603 => some .getSelfAddr
  | 604 => some .getSrcTxHash
  | 605 => some .getInvokedTxHash
  | 606 => some .getBlockNumber
  | 607 => some .hasKey
  | 608 => some .rawMemSet
  | 609 => some .rawMemGet
  | 610 => some .rawMemGetLen
  | 611 => some .deleteKeyLast
  | 612 => some .nnintSetAdd
  | 613 => some .nnintAdd
  | 614 => some .nnintGet
  | 615 => some .hsInsert
  | 616 => some .hsIncLimit
  | 617 => some .hsClear
  | 618 => some .hsGetSize
  | 619 => some .hsGetMaxSize
  | 620 => some .hsGetIndexOf
  | 621 => some .hsGetIndex
  | 622 => some .contractCreate
  | 623 => some .contractDeploy
  | 624 => some .witnessGet
  | 625 => some .witnessGetLen
  | 626 => some .returns
  | 627 => some .getCalldata
  | 628 => some .getCalldataLen
  | 629 => some .gas
  | 700 => some .hash
  | 701 => some .verifyEd25519
  | _ => none

/-! ## Gas costs -/

/-- `DECL_COST_LINEAR`: on a machine word, whatever the length. -/
def linearCost (costStatic costLinear inputLen : UInt64) : UInt64 :=
  costStatic + inputLen * costLinear

def gasMemcmp : UInt64 → UInt64 := linearCost 10 1
def gasMemset : UInt64 → UInt64 := linearCost 10 2
def gasMemcpy : UInt64 → UInt64 := linearCost 10 2
def gasStrnlen : UInt64 → UInt64 := linearCost 10 1
def gasLog : UInt64 → UInt64 := linearCost 50 1
def gasReturn : UInt64 → UInt64 := linearCost 50 2
def gasGetCalldata : UInt64 → UInt64 := linearCost 50 2
def gasGetCalldataLen : UInt64 := 10
def gasInvoke : UInt64 → UInt64 := linearCost 10000 2
def gasGetMsgSender : UInt64 := 50
def gasGetSelfAddr : UInt64 := 50
def gasGetBlockNumber : UInt64 := 10
def gasGetSrcTxHash : UInt64 := 50
def gasGetInvokedTxHash : UInt64 := 50
def gasHasKey : UInt64 := 10
def gasRawMemorySet : UInt64 → UInt64 := linearCost 50 2
def gasRawMemoryGet : UInt64 → UInt64 := linearCost 50 2
def gasRawMemoryGetLen : UInt64 := 10
def gasDeleteKeyLast : UInt64 := 50
def gasNonnegativeInt64SetAdd : UInt64 := 50
def gasNonnegativeInt64Add : UInt64 := 50
def gasNonnegativeInt64Get : UInt64 := 10
def gasHashsetInsert : UInt64 := 100
def gasHashsetIncreaseLimit : UInt64 := 50
def gasHashsetClear : UInt64 := 100
def gasHashsetGetSize : UInt64 := 50
def gasHashsetGetMaxSize : UInt64 := 50
def gasHashsetGetIndexOf : UInt64 := 100
def gasHashsetGetIndex : UInt64 := 50
def gasHash : UInt64 := 10000
def gasCheckSigEd25519 : UInt64 := 10000
def gasCreateContract : UInt64 → UInt64 := linearCost 10000 100
def gasDeployContract : UInt64 := 100
def gasGetWitness : UInt64 → UInt64 := linearCost 50 2
def gasGetWitnessLen : UInt64 := 10

end Scs
