import Scs.ContractDb.ContractDB

/-!
# The contracts of one transaction (`contract_db/contract_db_proxy.cc`)

A transaction creates and deploys contracts in its own proxy, which reads only
what earlier blocks committed.
-/

namespace Scs

set_option autoImplicit false

structure ContractLibrary where
  addMetering : Contract → RunnableScriptView
  hashXdr : Contract → Hash
  hashVec : List UInt8 → Hash

def arrayBytes (array : BitVec 256) : List UInt8 :=
  (List.range 32).map fun position => UInt8.ofBitVec (array.extractLsb' (8 * (31 - position)) 8)

def wordBytes (word : UInt64) : List UInt8 :=
  (List.range 8).map fun position => UInt8.ofBitVec (word.toBitVec.extractLsb' (8 * position) 8)

structure ContractDBProxy where
  newContracts : SortedMap Hash (MeteredContract × Contract)
  newDeployments : SortedMap Address Hash
  isCommitted : Bool

namespace ContractDBProxy

def empty : ContractDBProxy where
  newContracts := .empty
  newDeployments := .empty
  isCommitted := false

def checkContractExists (contractDb : ContractDB) (contractHash : Hash)
    (proxy : ContractDBProxy) : Bool :=
  contractDb.checkCommittedContractExists contractHash ||
    (proxy.newContracts.find contractHash).isSome

def getScript (contractDb : ContractDB) (address : Address) (proxy : ContractDBProxy) :
    Except Fault RunnableScriptView :=
  match proxy.newDeployments.find address with
  | none => contractDb.getScriptByAddress address
  | some scriptHash =>
      match proxy.newContracts.find scriptHash with
      | none => .ok (contractDb.getScriptByHash scriptHash)
      | some contract => .ok contract.1.toView

variable (library : ContractLibrary)

def computeContractDeployAddress (deployerAddress : Address) (contractHash : Hash)
    (nonce : UInt64) : Address :=
  library.hashVec (arrayBytes deployerAddress ++ arrayBytes contractHash ++ wordBytes nonce)

def deployContract (contractDb : ContractDB) (senderAddress : Address) (contractHash : Hash)
    (nonce : UInt64) (proxy : ContractDBProxy) : Option Address × ContractDBProxy :=
  let deployAddress := computeContractDeployAddress library senderAddress contractHash nonce
  if !proxy.checkContractExists contractDb contractHash then (none, proxy)
  else if (proxy.newDeployments.find deployAddress).isSome then (none, proxy)
  else
    (some deployAddress,
      { proxy with newDeployments := proxy.newDeployments.assign deployAddress contractHash })

def createContract (contract : Contract) (proxy : ContractDBProxy) : Hash × ContractDBProxy :=
  let h := library.hashXdr contract
  let metered : MeteredContract := { base := library.addMetering contract }
  (h, { proxy with newContracts := proxy.newContracts.assign h (metered, contract) })

def pushUpdatesToDb (proxy : ContractDBProxy) :
    Except Fault
      (List (Address × Hash) × List (Hash × MeteredContract × Contract) × ContractDBProxy) :=
  if proxy.isCommitted then
    .error (.runtimeError "ContractDBProxy::assert_not_commited() failed")
  else
    .ok
      (proxy.newDeployments.entries, proxy.newContracts.entries, { proxy with isCommitted := true })

end ContractDBProxy

end Scs
