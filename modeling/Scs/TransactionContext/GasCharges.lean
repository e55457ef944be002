import Scs.TransactionContext.ExecutionContext

/-!
# What a call is charged, and what it asks for

A call that copies is priced by the number of bytes that its arguments ask for. The
price is computed on machine words, and a sum of two lengths on words of 32 bits.
-/

namespace Scs

set_option autoImplicit false

/-! ## Requests -/

/-- The price of a call, and the bytes that it asks to have copied or transferred. -/
structure GasRequest where
  costStatic : UInt64
  costLinear : UInt64
  bytes : ℕ

namespace GasRequest

def cost (request : GasRequest) : ℕ :=
  request.costStatic.toNat + request.costLinear.toNat * request.bytes

def flat (costStatic : UInt64) : GasRequest where
  costStatic := costStatic
  costLinear := 0
  bytes := 0

theorem flat_cost (costStatic : UInt64) : (flat costStatic).cost = costStatic.toNat := by
  unfold flat cost
  rw [Nat.mul_zero, Nat.add_zero]

end GasRequest

/-- A charge never exceeds the cost of the request, and is exact under a condition. -/
structure Bills (charge : UInt64) (request : GasRequest) (fits : Prop) : Prop where
  le : charge.toNat ≤ request.cost
  exact_iff : charge.toNat = request.cost ↔ fits

theorem bills_flat (cost : UInt64) : Bills cost (.flat cost) True where
  le := (GasRequest.flat_cost cost).ge
  exact_iff := iff_true_intro (GasRequest.flat_cost cost).symm

theorem Bills.always {charge : UInt64} {request : GasRequest} {fits : Prop}
    (bills : Bills charge request fits) (holds : fits) : Bills charge request True where
  le := bills.le
  exact_iff := iff_true_intro (bills.exact_iff.mpr holds)

theorem linear_cost_to_nat (costStatic costLinear inputLen : UInt64) :
    (linearCost costStatic costLinear inputLen).toNat =
      (costStatic.toNat + costLinear.toNat * inputLen.toNat) % 2 ^ 64 := by
  unfold linearCost
  rw [UInt64.toNat_add, UInt64.toNat_mul, Nat.add_mod_mod, Nat.mul_comm]

theorem bills_linear (costStatic costLinear : UInt64) (bytes : ℕ) :
    Bills (linearCost costStatic costLinear (UInt64.ofNat bytes))
      { costStatic, costLinear, bytes }
      (costStatic.toNat + costLinear.toNat * bytes < 2 ^ 64) := by
  have charged : (linearCost costStatic costLinear (UInt64.ofNat bytes)).toNat =
      (costStatic.toNat + costLinear.toNat * bytes) % 2 ^ 64 := by
    rw [linear_cost_to_nat, UInt64.toNat_ofNat', ← Nat.add_mod_mod, Nat.mul_mod_mod,
      Nat.add_mod_mod]
  constructor
  · rw [charged]
    exact Nat.mod_le _ _
  · rw [charged]
    exact Nat.mod_eq_iff_lt (by decide)

def Cheap (costStatic costLinear : UInt64) : Prop :=
  costStatic.toNat + costLinear.toNat * 2 ^ 32 ≤ 2 ^ 64

instance (costStatic costLinear : UInt64) : Decidable (Cheap costStatic costLinear) :=
  inferInstanceAs (Decidable (_ ≤ _))

theorem cheap_fits {costStatic costLinear : UInt64} (cheap : Cheap costStatic costLinear)
    (positive : 0 < costLinear.toNat) (len : UInt32) :
    costStatic.toNat + costLinear.toNat * len.toNat < 2 ^ 64 := by
  have short : len.toNat < 2 ^ 32 := len.toNat_lt
  have below : costLinear.toNat * len.toNat < costLinear.toNat * 2 ^ 32 :=
    Nat.mul_lt_mul_of_pos_left short positive
  unfold Cheap at cheap
  omega

theorem bills_sum {costStatic costLinear : UInt64} (cheap : Cheap costStatic costLinear)
    (positive : 0 < costLinear.toNat) (first second : UInt32) :
    Bills (linearCost costStatic costLinear (first + second).toUInt64)
      { costStatic, costLinear, bytes := first.toNat + second.toNat }
      (first.toNat + second.toNat < 2 ^ 32) := by
  have charged : (linearCost costStatic costLinear (first + second).toUInt64).toNat =
      costStatic.toNat + costLinear.toNat * ((first.toNat + second.toNat) % 2 ^ 32) := by
    rw [linear_cost_to_nat, UInt32.toNat_toUInt64, Nat.mod_eq_of_lt (cheap_fits cheap positive _),
      UInt32.toNat_add]
  constructor
  · rw [charged]
    exact Nat.add_le_add_left (Nat.mul_le_mul_left _ (Nat.mod_le _ _)) _
  · rw [charged]
    unfold GasRequest.cost
    rw [Nat.add_left_cancel_iff, Nat.mul_left_cancel_iff positive]
    exact Nat.mod_eq_iff_lt (by decide)

theorem bills_len {costStatic costLinear : UInt64} (cheap : Cheap costStatic costLinear)
    (positive : 0 < costLinear.toNat) (len : UInt32) :
    Bills (linearCost costStatic costLinear len.toUInt64)
      { costStatic, costLinear, bytes := len.toNat } True := by
  have word : UInt64.ofNat len.toNat = len.toUInt64 := UInt64.toNat_inj.mp (by simp)
  rw [← word]
  exact (bills_linear costStatic costLinear len.toNat).always (cheap_fits cheap positive len)

/-! ## The calls -/

section Syscalls

variable (input : Submission) (calldata : List UInt8)

/-- What a syscall that copies no bytes of the caller's choice consumes. -/
def Syscall.flatCost : Syscall → UInt64
  | .getSender => gasGetMsgSender
  | .getSelfAddr => gasGetSelfAddr
  | .getSrcTxHash => gasGetSrcTxHash
  | .getInvokedTxHash => gasGetInvokedTxHash
  | .getBlockNumber => gasGetBlockNumber
  | .hasKey => gasHasKey
  | .rawMemGetLen => gasRawMemoryGetLen
  | .deleteKeyLast => gasDeleteKeyLast
  | .nnintSetAdd => gasNonnegativeInt64SetAdd
  | .nnintAdd => gasNonnegativeInt64Add
  | .nnintGet => gasNonnegativeInt64Get
  | .hsInsert => gasHashsetInsert
  | .hsIncLimit => gasHashsetIncreaseLimit
  | .hsClear => gasHashsetClear
  | .hsGetSize => gasHashsetGetSize
  | .hsGetMaxSize => gasHashsetGetMaxSize
  | .hsGetIndexOf => gasHashsetGetIndexOf
  | .hsGetIndex => gasHashsetGetIndex
  | .contractDeploy => gasDeployContract
  | .witnessGetLen => gasGetWitnessLen
  | .getCalldataLen => gasGetCalldataLen
  | .hash => gasHash
  | .verifyEd25519 => gasCheckSigEd25519
  | _ => 0

/-- What a syscall consumes if it does not fail before; `calldata` is that of the
invocation on top of the stack. -/
def Syscall.charge (arg0 arg1 arg2 arg3 arg5 : UInt64) : Syscall → UInt64
  | .log => gasLog arg1.toUInt32.toUInt64
  | .invoke => gasInvoke (arg3.toUInt32 + arg5.toUInt32).toUInt64
  | .rawMemSet => gasRawMemorySet arg2.toUInt32.toUInt64
  | .rawMemGet => gasRawMemoryGet arg2.toUInt32.toUInt64
  | .contractCreate =>
      match input.tx.tx.contractsToDeploy[arg0.toUInt32.toNat]? with
      | none => 0
      | some contract => gasCreateContract (UInt64.ofNat contract.length)
  | .witnessGet => gasGetWitness arg2
  | .returns => gasReturn arg1.toUInt32.toUInt64
  | .getCalldata =>
      let sliceEnd := minSize arg2.toUInt32 calldata.length
      if sliceEnd ≤ arg1.toUInt32 then 0
      else gasGetCalldata (sliceEnd - arg1.toUInt32).toUInt64
  | .gas => arg0
  | syscall => syscall.flatCost

/-- What its arguments ask for: `INVOKE` for its call data and the most that it takes
back, a read for the most that it writes, and `GET_CALLDATA` for a slice. -/
def Syscall.request (arg0 arg1 arg2 arg3 arg5 : UInt64) : Syscall → GasRequest
  | .log => { costStatic := 50, costLinear := 1, bytes := arg1.toUInt32.toNat }
  | .invoke =>
      { costStatic := 10000
        costLinear := 2
        bytes := arg3.toUInt32.toNat + arg5.toUInt32.toNat }
  | .rawMemSet => { costStatic := 50, costLinear := 2, bytes := arg2.toUInt32.toNat }
  | .rawMemGet => { costStatic := 50, costLinear := 2, bytes := arg2.toUInt32.toNat }
  | .contractCreate =>
      match input.tx.tx.contractsToDeploy[arg0.toUInt32.toNat]? with
      | none => .flat 0
      | some contract => { costStatic := 10000, costLinear := 100, bytes := contract.length }
  | .witnessGet => { costStatic := 50, costLinear := 2, bytes := arg2.toNat }
  | .returns => { costStatic := 50, costLinear := 2, bytes := arg1.toUInt32.toNat }
  | .getCalldata =>
      let sliceEnd := minSize arg2.toUInt32 calldata.length
      if sliceEnd ≤ arg1.toUInt32 then .flat 0
      else { costStatic := 50, costLinear := 2, bytes := sliceEnd.toNat - arg1.toUInt32.toNat }
  | .gas => .flat arg0
  | syscall => .flat syscall.flatCost

/-- The lengths that are added, or priced as they stand, do not wrap. -/
def Syscall.ChargeFits (arg0 arg2 arg3 arg5 : UInt64) : Syscall → Prop
  | .invoke => arg3.toUInt32.toNat + arg5.toUInt32.toNat < 2 ^ 32
  | .witnessGet => 50 + 2 * arg2.toNat < 2 ^ 64
  | .contractCreate =>
      match input.tx.tx.contractsToDeploy[arg0.toUInt32.toNat]? with
      | none => True
      | some contract => 10000 + 100 * contract.length < 2 ^ 64
  | _ => True

theorem syscall_bills (syscall : Syscall) (arg0 arg1 arg2 arg3 arg5 : UInt64) :
    Bills (syscall.charge input calldata arg0 arg1 arg2 arg3 arg5)
      (syscall.request input calldata arg0 arg1 arg2 arg3 arg5)
      (syscall.ChargeFits input arg0 arg2 arg3 arg5) := by
  cases syscall with
  | log => exact bills_len (by decide) (by decide) _
  | invoke => exact bills_sum (by decide) (by decide) _ _
  | rawMemSet => exact bills_len (by decide) (by decide) _
  | rawMemGet => exact bills_len (by decide) (by decide) _
  | contractCreate =>
      unfold Syscall.charge Syscall.request Syscall.ChargeFits
      dsimp only
      cases input.tx.tx.contractsToDeploy[arg0.toUInt32.toNat]? with
      | none => exact bills_flat 0
      | some contract => exact bills_linear 10000 100 contract.length
  | witnessGet =>
      have bills := bills_linear 50 2 arg2.toNat
      rw [UInt64.ofNat_toNat] at bills
      exact bills
  | returns => exact bills_len (by decide) (by decide) _
  | getCalldata =>
      unfold Syscall.charge Syscall.request Syscall.ChargeFits
      dsimp only
      split
      · exact bills_flat 0
      · rename_i slice
        have size := UInt32.toNat_sub_of_le _ _ (UInt32.le_of_lt (UInt32.not_le.mp slice))
        rw [← size]
        exact bills_len (by decide) (by decide) _
  | _ => exact bills_flat _

def RuntimeEvent.charge : RuntimeEvent → UInt64
  | .syscall callno arg0 arg1 arg2 arg3 _ arg5 =>
      match Syscall.ofCallno callno with
      | some known => known.charge input calldata arg0 arg1 arg2 arg3 arg5
      | none => 0
  | .gas amount => Syscall.charge input calldata amount 0 0 0 0 .gas
  | .memcmp _ _ sz => gasMemcmp sz.toUInt64
  | .memset _ _ len => gasMemset len.toUInt64
  | .memcpy _ _ len => gasMemcpy len.toUInt64
  | .strnlen _ maxLen => gasStrnlen maxLen.toUInt64
  | .returned | .trapped _ => 0

def RuntimeEvent.request : RuntimeEvent → GasRequest
  | .syscall callno arg0 arg1 arg2 arg3 _ arg5 =>
      match Syscall.ofCallno callno with
      | some known => known.request input calldata arg0 arg1 arg2 arg3 arg5
      | none => .flat 0
  | .gas amount => Syscall.request input calldata amount 0 0 0 0 .gas
  | .memcmp _ _ sz => { costStatic := 10, costLinear := 1, bytes := sz.toNat }
  | .memset _ _ len => { costStatic := 10, costLinear := 2, bytes := len.toNat }
  | .memcpy _ _ len => { costStatic := 10, costLinear := 2, bytes := len.toNat }
  | .strnlen _ maxLen => { costStatic := 10, costLinear := 1, bytes := maxLen.toNat }
  | .returned | .trapped _ => .flat 0

def RuntimeEvent.ChargeFits : RuntimeEvent → Prop
  | .syscall callno arg0 _ arg2 arg3 _ arg5 =>
      match Syscall.ofCallno callno with
      | some known => known.ChargeFits input arg0 arg2 arg3 arg5
      | none => True
  | _ => True

theorem event_bills (event : RuntimeEvent) :
    Bills (event.charge input calldata) (event.request input calldata)
      (event.ChargeFits input) := by
  cases event with
  | syscall callno arg0 arg1 arg2 arg3 arg4 arg5 =>
      unfold RuntimeEvent.charge RuntimeEvent.request RuntimeEvent.ChargeFits
      dsimp only
      cases Syscall.ofCallno callno with
      | none => exact bills_flat 0
      | some syscall => exact syscall_bills input calldata syscall arg0 arg1 arg2 arg3 arg5
  | gas gas => exact bills_flat gas
  | memcmp lhs rhs sz => exact bills_len (by decide) (by decide) sz
  | memset ptr val len => exact bills_len (by decide) (by decide) len
  | memcpy dst src len => exact bills_len (by decide) (by decide) len
  | strnlen ptr maxLen => exact bills_len (by decide) (by decide) maxLen
  | returned => exact bills_flat 0
  | trapped what => exact bills_flat 0

end Syscalls

end Scs
