import Scs.ContractDb.ContractPersistence
import Scs.Library.SortedMap

/-!
# The contract database (`contract_db/contract_db.cc`, `contract_db/uncommitted_contracts.cc`)

A block collects its new contracts and deployments in `UncommittedContracts`;
the end of the block commits or drops them, and logs to `AsyncPersistContracts`
what goes to disk. The address trie is the map it stands for.
-/

namespace Scs

set_option autoImplicit false

/-- `RunnableScriptView`; `none` when its data pointer is null. -/
abbrev RunnableScriptView := Option (List UInt8)

def nullScript : RunnableScriptView := none

/-- A contract with gas metering; the metering may have returned null. -/
structure MeteredContract where
  base : RunnableScriptView
  deriving DecidableEq, Repr

def MeteredContract.toView (contract : MeteredContract) : RunnableScriptView := contract.base

instance : Std.IsLinearOrder Hash := BitVec.instIsLinearOrder

instance : Std.LawfulOrderLT Hash := BitVec.instLawfulOrderLT

structure UncommittedContracts where
  newContracts : SortedMap Hash MeteredContract
  newDeployments : SortedMap Address Hash

namespace UncommittedContracts

def empty : UncommittedContracts where
  newContracts := .empty
  newDeployments := .empty

def deployContractToAddress (addr : Address) (scriptHash : Hash)
    (contracts : UncommittedContracts) : UncommittedContracts :=
  { contracts with newDeployments := (contracts.newDeployments.emplace addr scriptHash).2 }

def addNewContract (h : Hash) (newContract : MeteredContract)
    (contracts : UncommittedContracts) : Except Fault UncommittedContracts :=
  let (inserted, newContracts) := contracts.newContracts.emplace h newContract
  if inserted then .ok { contracts with newContracts := newContracts }
  else .error (.runtimeError "invalid add_new_contract (already existed)")

end UncommittedContracts

structure ContractDB where
  addressesToContracts : Address → Option MeteredContract
  hashesToContracts : SortedMap Hash MeteredContract
  uncommittedContracts : UncommittedContracts
  hasUncommittedModifications : Bool
  persistence : AsyncPersistContracts

namespace ContractDB

def empty : ContractDB where
  addressesToContracts _ := none
  hashesToContracts := .empty
  uncommittedContracts := .empty
  hasUncommittedModifications := false
  persistence := .start

/-! ## Reads -/

def getScriptByAddress (addr : Address) (db : ContractDB) : Except Fault RunnableScriptView :=
  match db.addressesToContracts addr with
  | none => .ok nullScript
  | some contract =>
      match contract.toView with
      | none => .error (.runtimeError "invalid script stored within ContractDB!")
      | some script => .ok (some script)

def getScriptByHash (hash : Hash) (db : ContractDB) : RunnableScriptView :=
  match db.hashesToContracts.find hash with
  | none => nullScript
  | some contract => contract.toView

def checkCommittedContractExists (contractHash : Hash) (db : ContractDB) : Bool :=
  (db.hashesToContracts.find contractHash).isSome

/-! ## Within a block -/

def deployContractToAddress (addr : Address) (scriptHash : Hash) (db : ContractDB) : ContractDB :=
  { db with
    uncommittedContracts := db.uncommittedContracts.deployContractToAddress addr scriptHash
    hasUncommittedModifications := true }

def addNewUncommittedContract (thread : Fin tlcacheSize) (h : Hash) (newContract : MeteredContract)
    (newUnmeteredContract : Contract) (db : ContractDB) : Except Fault ContractDB := do
  let contracts ← db.uncommittedContracts.addNewContract h newContract
  .ok
    { db with
      uncommittedContracts := contracts
      hasUncommittedModifications := true
      persistence := db.persistence.logCreate thread h newUnmeteredContract }

def persist (db : ContractDB) : ContractDB := { db with persistence := db.persistence.run }

/-! ## The end of a block -/

def commitContractToDb (contractHash : Hash) (newContract : MeteredContract) (db : ContractDB) :
    Except Fault ContractDB :=
  let (inserted, hashes) := db.hashesToContracts.emplace contractHash newContract
  if inserted then .ok { db with hashesToContracts := hashes }
  else .error (.runtimeError
    "failed to commit contract (contract at this hash already existed)")

def commitRegistration (thread : Fin tlcacheSize) (newAddress : Address) (contractHash : Hash)
    (db : ContractDB) : Except Fault ContractDB :=
  match db.hashesToContracts.find contractHash with
  | none => .error .outOfRange
  | some ptr =>
      if (db.addressesToContracts newAddress).isSome then
        .error (.runtimeError "double registration of a contract")
      else
        .ok
          { db with
            addressesToContracts :=
              Function.update db.addressesToContracts newAddress (some ptr)
            persistence := db.persistence.logDeploy thread newAddress contractHash }

def commitContracts (contracts : List (Hash × MeteredContract)) (db : ContractDB) :
    Except Fault ContractDB :=
  contracts.foldlM (fun db entry => db.commitContractToDb entry.1 entry.2) db

def commitRegistrations (thread : Fin tlcacheSize) (deployments : List (Address × Hash))
    (db : ContractDB) : Except Fault ContractDB :=
  deployments.foldlM (fun db entry => db.commitRegistration thread entry.1 entry.2) db

def commit (thread : Fin tlcacheSize) (timestamp : UInt32) (db : ContractDB) :
    Except Fault ContractDB := do
  let created ← db.commitContracts db.uncommittedContracts.newContracts.entries
  let registered ←
    created.commitRegistrations thread db.uncommittedContracts.newDeployments.entries
  .ok
    { registered with
      uncommittedContracts := .empty
      hasUncommittedModifications := false
      persistence := registered.persistence.write timestamp }

def rewind (db : ContractDB) : ContractDB :=
  { db with
    uncommittedContracts := .empty
    hasUncommittedModifications := false
    persistence := db.persistence.nowrite }

def snapshot (db : ContractDB) : ContractDB :=
  { db with
    uncommittedContracts := .empty
    hasUncommittedModifications := false
    persistence := .start }

end ContractDB

end Scs
