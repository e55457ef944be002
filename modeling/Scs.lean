import Scs.Library.Runs
import Scs.Library.SharedWork
import Scs.Library.OpenAddressing
import Scs.Library.Words
import Scs.Library.Lockstep
import Scs.Library.TwoPhase
import Scs.Library.Willing
import Scs.Library.Visits
import Scs.Utils.AtomicUint128
import Scs.Utils.AtomicUint128Steps
import Scs.Xdr.Storage
import Scs.Xdr.Transaction
import Scs.HashSet.Utils
import Scs.HashSet.AtomicSet
import Scs.Object.RevertableBaseObject
import Scs.Object.OpenRewinds
import Scs.Object.BaseInterleaving
import Scs.Object.BaseStages
import Scs.Object.ObjectDefaults
import Scs.Object.RevertableObject
import Scs.Object.Ledger
import Scs.Object.Accounts
import Scs.Object.Calls
import Scs.Object.Round
import Scs.Object.Session
import Scs.Object.OrderFree
import Scs.Object.NonnegativeInt64
import Scs.StateDb.World
import Scs.StorageProxy.TransactionRewind
import Scs.StateDb.FailedTransaction
import Scs.StateDb.Traceless
import Scs.TransactionContext.SerialReplay
import Scs.TransactionContext.Serializability
import Scs.Object.Alone
import Scs.StorageProxy.ProxyApplicator
import Scs.StorageProxy.LocalView
import Scs.StorageProxy.LocalAcceptance
import Scs.StorageProxy.CommittedBase
import Scs.StorageProxy.LocalResult
import Scs.Library.Threads
import Scs.BlockAssembly.Limits
import Scs.Mempool.Mempool
import Scs.Persistence.PersistXdr
import Scs.Vm.ValidateReduce
import Scs.Vm.BaseVm
import Scs.Vm.HeaderChain
import Scs.Object.AssetOrder
import Scs.Object.AssetCounters
import Scs.TxBlock.TxSet
import Scs.StateDb.StateDB
import Scs.StateDb.StateDBv2
import Scs.Object.NewHashTable
import Scs.Object.Deletion
import Scs.StateDb.StateStore
import Scs.StateDb.StoreEquivalence
import Scs.Library.SortedMap
import Scs.ContractDb.ContractDB
import Scs.ContractDb.ContractPersistence
import Scs.ContractDb.ContractDBProxy
import Scs.ContractDb.ContractCommit
import Scs.StorageProxy.StorageProxy
import Scs.TransactionContext.TransactionContext
import Scs.TransactionContext.BlockExecution
import Scs.StateDb.SteadyStore
import Scs.TransactionContext.SameCommits
import Scs.TransactionContext.SnapshotReads
import Scs.TransactionContext.BlockLog
import Scs.StateDb.ObjectStore
import Scs.StateDb.SettlingStore
import Scs.StateDb.BlockStart
import Scs.TransactionContext.BlockBalance
import Scs.Phase.UndoBlock
import Scs.Phase.BlockBoundary
import Scs.TransactionContext.ContractBindings
import Scs.TransactionContext.KeyCalls
import Scs.Sdk.ReplayCache
import Scs.Sdk.ReplayProtection
import Scs.Sdk.CountedKey
import Scs.Sdk.CountedBlock
import Scs.Sdk.Semaphore
import Scs.Sdk.SemaphoreTurns
import Scs.Sdk.UniqueFlag
import Scs.StorageProxy.RefusedOperations
import Scs.StorageProxy.LocalTotal
import Scs.StorageProxy.TrappingSums
import Scs.TransactionContext.CallSafety
import Scs.StateDb.RespondingStore
import Scs.TransactionContext.ExecuteReturns
import Scs.TransactionContext.SyscallDeltas
import Scs.TransactionContext.ValidatorMoves
import Scs.TransactionContext.SameLedger
import Scs.TransactionContext.ProposedBlock
import Scs.TransactionContext.OwnMoves
import Scs.TransactionContext.ValidationEnds
import Scs.Library.Interaction
import Scs.TransactionContext.RoutineHandlers
import Scs.TransactionContext.SteadyHandlers
import Scs.TransactionContext.StackDiscipline
import Scs.TransactionContext.Syscalls
import Scs.TransactionContext.ExecutionContext
import Scs.TransactionContext.HostErrors
import Scs.TransactionContext.ExecuteStatus
import Scs.TransactionContext.ReturnBuffer
import Scs.TransactionContext.ReturnData
import Scs.TransactionContext.NestedInvocations
import Scs.TransactionContext.GasCharges
import Scs.TransactionContext.GasUsed
import Scs.Threadlocal.Allocator
import Scs.Threadlocal.RateLimiter
import Scs.HashSet.HashIndices
import Scs.Threadlocal.AllocatorThreads
import Scs.HashSet.BoundedSet
import Scs.HashSet.AtomicSetSteps
import Scs.Object.HashSetPushes
import Scs.StorageProxy.ObjectHistory
import Scs.StateDb.StaleHashes
import Scs.Library.Bytes
import Scs.StateDb.TypedModificationIndex
import Scs.StateDb.ModificationMetadata
import Scs.Library.Rounding
import Scs.HashSet.SlotCounts
import Scs.Object.TableRoom
import Scs.Sdk.ContractCalls
import Scs.Sdk.AddedKey
import Scs.Sdk.AddedBlock
import Scs.Contracts.Erc20
import Scs.Contracts.Erc20Slots
import Scs.Contracts.Erc20Chain
import Scs.StateDb.SisyphusStateDB
import Scs.TxBlock.UniqueTxSet
import Scs.Phase.SisyphusBlock
import Scs.Phase.ModificationLog
import Scs.StateDb.TableCapacity
import Scs.Phase.ReplicatedBlock
import Scs.Phase.Replicas
import Scs.BlockAssembly.AssemblyWorker
import Scs.BlockAssembly.AssembledBlock
