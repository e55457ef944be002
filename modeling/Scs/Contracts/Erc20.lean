import Mathlib.Algebra.BigOperators.Group.Finset.Piecewise
import Scs.Sdk.AddedBlock
import Scs.Sdk.ContractCalls

/-!
# The ERC20 contract (`cpp_contracts/erc20.cc`)

Balances, allowances and the total supply are integers under keys of their own, and
every function changes them through `int64_add` only.
-/

namespace Scs

set_option autoImplicit false

open Interaction

/-! ## The contract -/

structure Erc20 where
  self : Address
  hash : List UInt8 → Hash

structure Erc20Metadata where
  name : Vector UInt8 20
  decimals : UInt8

inductive Erc20Method where
  | initializeOwner (owner : Address)
  | transferFrom (fromAccount toAccount : Address) (amount : Int64)
  | mint (recipient : Address) (amount : Int64)
  | allowanceDelta (account : Address) (amount : Int64)
  | balanceOf (account : Address)
  | getMetadata
  | setMetadata (metadata : Erc20Metadata)

theorem address_bytes_bounded (address : Address) :
    (arrayBytes address).length ≤ rawMemoryMaxLen := by
  rw [arrayBytes, List.length_map, List.length_range]
  decide

def rawAddress (address : Address) : RawMemoryStorage where
  data := arrayBytes address
  bounded := address_bytes_bounded address

theorem metadata_bytes_bounded (metadata : Erc20Metadata) :
    (metadata.name.toList ++ [metadata.decimals]).length ≤ rawMemoryMaxLen := by
  rw [List.length_append, Vector.length_toList, List.length_singleton]
  decide

def rawMetadata (metadata : Erc20Metadata) : RawMemoryStorage where
  data := metadata.name.toList ++ [metadata.decimals]
  bounded := metadata_bytes_bounded metadata

namespace Erc20

def ownerIdStorageKey : InvariantKey := makeStaticKey 0 1 0 0

def totalSupplyStorageKey : InvariantKey := makeStaticKey 1 1 0 0

def metadataKey : InvariantKey := makeStaticKey 2 1 0 0

variable (token : Erc20)

def calculateBalanceKey (addr : Address) : InvariantKey := token.hash (arrayBytes addr)

def calculateAllowanceKey (owner auth : Address) : InvariantKey :=
  token.hash (arrayBytes owner ++ arrayBytes auth)

def balanceKey (addr : Address) : AddressAndKey := token.self ++ token.calculateBalanceKey addr

def allowanceKey (owner auth : Address) : AddressAndKey :=
  token.self ++ token.calculateAllowanceKey owner auth

def totalSupplyKey : AddressAndKey := token.self ++ totalSupplyStorageKey

def ownerGuard (sender : Address) : ContractM Unit := do
  if arrayBytes sender ≠ (← getRawMemory (token.self ++ ownerIdStorageKey)) then contractAbort

def transfer (fromAccount toAccount : Address) (amount : Int64) : ContractM Unit := do
  if amount < 0 then contractAbort
  int64Add (token.balanceKey fromAccount) (-amount)
  int64Add (token.balanceKey toAccount) amount

def allowanceDelta (owner auth : Address) (amount : Int64) : ContractM Unit :=
  int64Add (token.allowanceKey owner auth) amount

def mint (toAccount : Address) (amount : Int64) : ContractM Unit := do
  if amount < 0 then contractAbort
  int64Add (token.balanceKey toAccount) amount
  int64Add token.totalSupplyKey amount

def balanceOf (addr : Address) : ContractM Int64 := int64Get (token.balanceKey addr)

/-- An exported function, invoked by `sender`. -/
def run (sender : Address) : Erc20Method → ContractM Unit
  | .initializeOwner owner => setRawMemory (token.self ++ ownerIdStorageKey) (rawAddress owner)
  | .transferFrom fromAccount toAccount amount => do
      token.allowanceDelta fromAccount sender (-amount)
      token.transfer fromAccount toAccount amount
  | .mint recipient amount => token.mint recipient amount
  | .allowanceDelta account amount => token.allowanceDelta sender account amount
  | .balanceOf account => do
      let _ ← token.balanceOf account
      pure ()
  | .getMetadata => do
      let _ ← getRawMemory (token.self ++ metadataKey)
      pure ()
  | .setMetadata metadata => do
      token.ownerGuard sender
      setRawMemory (token.self ++ metadataKey) (rawMetadata metadata)

end Erc20

structure Erc20Invocation where
  sender : Address
  method : Erc20Method

/-! ## What the contract is for -/

structure Erc20Ledger where
  balance : Address → ℤ
  allowance : Address → Address → ℤ
  totalSupply : ℤ

namespace Erc20Invocation

def Lawful (invocation : Erc20Invocation) : Prop :=
  match invocation.method with
  | .transferFrom _ _ amount => 0 ≤ amount.toInt
  | .mint _ amount => 0 ≤ amount.toInt
  | _ => True

def named (invocation : Erc20Invocation) : List Address :=
  match invocation.method with
  | .transferFrom fromAccount toAccount _ => [invocation.sender, fromAccount, toAccount]
  | .mint recipient _ => [recipient]
  | .allowanceDelta account _ => [invocation.sender, account]
  | .balanceOf account => [account]
  | _ => []

def received (account : Address) (invocation : Erc20Invocation) : ℤ :=
  match invocation.method with
  | .transferFrom fromAccount toAccount amount =>
      (if fromAccount = account then -amount.toInt else 0) +
        if toAccount = account then amount.toInt else 0
  | .mint recipient amount => if recipient = account then amount.toInt else 0
  | _ => 0

def minted (invocation : Erc20Invocation) : ℤ :=
  match invocation.method with
  | .mint _ amount => amount.toInt
  | _ => 0

def granted (owner auth : Address) (invocation : Erc20Invocation) : ℤ :=
  match invocation.method with
  | .allowanceDelta account amount =>
      if invocation.sender = owner ∧ account = auth then amount.toInt else 0
  | _ => 0

/-- What `auth` moves away from `owner` by an invocation. -/
def spent (owner auth : Address) (invocation : Erc20Invocation) : ℤ :=
  match invocation.method with
  | .transferFrom fromAccount _ amount =>
      if fromAccount = owner ∧ invocation.sender = auth then amount.toInt else 0
  | _ => 0

end Erc20Invocation

def Erc20Ledger.apply (ledger : Erc20Ledger) (invocation : Erc20Invocation) : Erc20Ledger where
  balance account := ledger.balance account + invocation.received account
  allowance owner auth :=
    ledger.allowance owner auth + invocation.granted owner auth - invocation.spent owner auth
  totalSupply := ledger.totalSupply + invocation.minted

def totalOf (measure : Erc20Invocation → ℤ) (invocations : List Erc20Invocation) : ℤ :=
  (invocations.map measure).sum

section Ledger

variable {invocations : List Erc20Invocation} {accounts : Finset Address}

@[simp] theorem total_of_append (measure : Erc20Invocation → ℤ)
    (earlier later : List Erc20Invocation) :
    totalOf measure (earlier ++ later) = totalOf measure earlier + totalOf measure later := by
  rw [totalOf, List.map_append, List.sum_append]
  rfl

@[simp] theorem total_of_singleton (measure : Erc20Invocation → ℤ) (invocation : Erc20Invocation) :
    totalOf measure [invocation] = measure invocation := List.sum_singleton

theorem total_of_sub (first second : Erc20Invocation → ℤ) (invocations : List Erc20Invocation) :
    totalOf (fun invocation => first invocation - second invocation) invocations =
      totalOf first invocations - totalOf second invocations := by
  induction invocations with
  | nil => rfl
  | cons invocation rest induction =>
      simp only [totalOf, List.map_cons, List.sum_cons] at induction ⊢
      omega

theorem ledger_after (ledger : Erc20Ledger) (invocations : List Erc20Invocation) :
    (∀ account, (invocations.foldl Erc20Ledger.apply ledger).balance account =
      ledger.balance account + totalOf (·.received account) invocations) ∧
    (∀ owner auth, (invocations.foldl Erc20Ledger.apply ledger).allowance owner auth =
      ledger.allowance owner auth + totalOf (·.granted owner auth) invocations -
        totalOf (·.spent owner auth) invocations) ∧
    (invocations.foldl Erc20Ledger.apply ledger).totalSupply =
      ledger.totalSupply + totalOf (·.minted) invocations := by
  induction invocations using List.reverseRecOn with
  | nil =>
      refine ⟨fun _ => (add_zero _).symm, fun owner auth => ?_, (add_zero _).symm⟩
      exact ((sub_zero _).trans (add_zero _)).symm
  | append_singleton earlier last induction =>
      obtain ⟨balances, allowances, supply⟩ := induction
      rw [List.foldl_append, List.foldl_cons, List.foldl_nil]
      refine ⟨fun account => ?_, fun owner auth => ?_, ?_⟩
      · rw [total_of_append, total_of_singleton, ← add_assoc, ← balances]
        rfl
      · rw [total_of_append, total_of_append, total_of_singleton, total_of_singleton]
        simp only [Erc20Ledger.apply, allowances]
        omega
      · rw [total_of_append, total_of_singleton, ← add_assoc, ← supply]
        rfl

theorem received_together {invocation : Erc20Invocation}
    (named : ∀ account ∈ invocation.named, account ∈ accounts) :
    ∑ account ∈ accounts, invocation.received account = invocation.minted := by
  obtain ⟨sender, method⟩ := invocation
  cases method with
  | transferFrom fromAccount toAccount amount =>
      have fromNamed : fromAccount ∈ accounts := named fromAccount (by simp [Erc20Invocation.named])
      have toNamed : toAccount ∈ accounts := named toAccount (by simp [Erc20Invocation.named])
      simp only [Erc20Invocation.received, Finset.sum_add_distrib, Finset.sum_ite_eq,
        if_pos fromNamed, if_pos toNamed]
      exact neg_add_cancel _
  | mint recipient amount =>
      have toNamed : recipient ∈ accounts := named recipient List.mem_cons_self
      simp only [Erc20Invocation.received, Finset.sum_ite_eq, if_pos toNamed]
      rfl
  | _ => exact Finset.sum_const_zero

theorem total_received (named : ∀ invocation ∈ invocations,
    ∀ account ∈ invocation.named, account ∈ accounts) :
    ∑ account ∈ accounts, totalOf (·.received account) invocations =
      totalOf (·.minted) invocations := by
  induction invocations with
  | nil => exact Finset.sum_const_zero
  | cons invocation rest induction =>
      have first := received_together (named invocation List.mem_cons_self)
      have others := induction fun other member =>
        named other (List.mem_cons_of_mem invocation member)
      simp only [totalOf, List.map_cons, List.sum_cons, Finset.sum_add_distrib] at others ⊢
      rw [first, others]

end Ledger

/-! ## The keys of a token -/

inductive Erc20Slot where
  | ownerId
  | totalSupply
  | metadata
  | balance (addr : Address)
  | allowance (owner auth : Address)
  deriving DecidableEq

def Erc20.slotKey (token : Erc20) : Erc20Slot → AddressAndKey
  | .ownerId => token.self ++ ownerIdStorageKey
  | .totalSupply => token.totalSupplyKey
  | .metadata => token.self ++ metadataKey
  | .balance addr => token.balanceKey addr
  | .allowance owner auth => token.allowanceKey owner auth

def Erc20Slot.Over (accounts : Finset Address) : Erc20Slot → Prop
  | .balance addr => addr ∈ accounts
  | .allowance owner auth => owner ∈ accounts ∧ auth ∈ accounts
  | _ => True

def Erc20Slot.Numeric : Erc20Slot → Prop
  | .ownerId | .metadata => False
  | _ => True

def Erc20.KeysApart (token : Erc20) (accounts : Finset Address) : Prop :=
  ∀ left right : Erc20Slot, left.Over accounts → right.Over accounts →
    token.slotKey left = token.slotKey right → left = right

namespace Erc20Invocation

def adds (invocation : Erc20Invocation) : Erc20Slot → ℤ
  | .balance account => invocation.received account
  | .allowance owner auth => invocation.granted owner auth - invocation.spent owner auth
  | .totalSupply => invocation.minted
  | _ => 0

def calls (token : Erc20) (invocation : Erc20Invocation) : List ProxyCall :=
  match invocation.method with
  | .initializeOwner owner => [.rawMemoryWrite (token.slotKey .ownerId) (rawAddress owner)]
  | .transferFrom fromAccount toAccount amount =>
      [.nonnegativeInt64Add (token.slotKey (.allowance fromAccount invocation.sender)) (-amount),
       .nonnegativeInt64Add (token.slotKey (.balance fromAccount)) (-amount),
       .nonnegativeInt64Add (token.slotKey (.balance toAccount)) amount]
  | .mint recipient amount =>
      [.nonnegativeInt64Add (token.slotKey (.balance recipient)) amount,
       .nonnegativeInt64Add (token.slotKey .totalSupply) amount]
  | .allowanceDelta account amount =>
      [.nonnegativeInt64Add (token.slotKey (.allowance invocation.sender account)) amount]
  | .balanceOf account => [.get (token.slotKey (.balance account))]
  | .getMetadata => [.get (token.slotKey .metadata)]
  | .setMetadata metadata =>
      [.get (token.slotKey .ownerId),
       .rawMemoryWrite (token.slotKey .metadata) (rawMetadata metadata)]

end Erc20Invocation

/-! ## The calls of an invocation -/

section Calls

variable {token : Erc20} {calls : List ProxyCall} {fromAccount toAccount owner auth : Address}
  {amount : Int64}

theorem transfer_makes (made : Makes () calls (token.transfer fromAccount toAccount amount)) :
    0 ≤ amount.toInt ∧ calls =
      [.nonnegativeInt64Add (token.balanceKey fromAccount) (-amount),
       .nonnegativeInt64Add (token.balanceKey toAccount) amount] := by
  unfold Erc20.transfer at made
  split_ifs at made with negative
  · obtain ⟨_, _, _, _, impossible, _⟩ := makes_bind.mp made
    exact absurd impossible contract_abort_makes
  · have nonnegative := Words.int64_neg_iff.not.mp negative
    obtain ⟨_, earlier, later, rfl, first, second⟩ := makes_bind.mp made
    rw [int64_add_makes first, int64_add_makes second]
    exact ⟨not_lt.mp nonnegative, rfl⟩

theorem mint_makes (made : Makes () calls (token.mint toAccount amount)) :
    0 ≤ amount.toInt ∧ calls =
      [.nonnegativeInt64Add (token.balanceKey toAccount) amount,
       .nonnegativeInt64Add token.totalSupplyKey amount] := by
  unfold Erc20.mint at made
  split_ifs at made with negative
  · obtain ⟨_, _, _, _, impossible, _⟩ := makes_bind.mp made
    exact absurd impossible contract_abort_makes
  · have nonnegative := Words.int64_neg_iff.not.mp negative
    obtain ⟨_, earlier, later, rfl, first, second⟩ := makes_bind.mp made
    rw [int64_add_makes first, int64_add_makes second]
    exact ⟨not_lt.mp nonnegative, rfl⟩

theorem owner_guard_makes {sender : Address} (made : Makes () calls (token.ownerGuard sender)) :
    calls = [.get (token.slotKey .ownerId)] := by
  obtain ⟨data, earlier, later, rfl, first, second⟩ := makes_bind.mp made
  rw [get_raw_memory_makes first]
  split_ifs at second with foreign
  · exact absurd second contract_abort_makes
  · rw [(makes_pure.mp second).1]
    rfl

/-- An invocation that returns has made the calls of its function, and has moved no
negative amount. -/
theorem run_makes {invocation : Erc20Invocation}
    (made : Makes () calls (token.run invocation.sender invocation.method)) :
    invocation.Lawful ∧ calls = invocation.calls token := by
  obtain ⟨sender, method⟩ := invocation
  cases method with
  | initializeOwner owner => exact ⟨trivial, set_raw_memory_makes made⟩
  | transferFrom fromAccount toAccount amount =>
      obtain ⟨_, earlier, later, rfl, first, second⟩ := makes_bind.mp made
      obtain ⟨nonnegative, moved⟩ := transfer_makes second
      have spends := int64_add_makes first
      exact ⟨nonnegative, by rw [spends, moved]; rfl⟩
  | mint recipient amount => exact mint_makes made
  | allowanceDelta account amount => exact ⟨trivial, int64_add_makes made⟩
  | balanceOf account =>
      obtain ⟨_, earlier, later, rfl, first, second⟩ := makes_bind.mp made
      have reads := int64_get_makes first
      exact ⟨trivial, by rw [reads, (makes_pure.mp second).1]; rfl⟩
  | getMetadata =>
      obtain ⟨_, earlier, later, rfl, first, second⟩ := makes_bind.mp made
      have reads := get_raw_memory_makes first
      exact ⟨trivial, by rw [reads, (makes_pure.mp second).1]; rfl⟩
  | setMetadata metadata =>
      obtain ⟨_, earlier, later, rfl, first, second⟩ := makes_bind.mp made
      have reads := owner_guard_makes first
      have writes := set_raw_memory_makes second
      exact ⟨trivial, by rw [reads, writes]; rfl⟩

end Calls

end Scs
