import Mathlib.Algebra.BigOperators.Group.Finset.Piecewise
import Scs.Contracts.Erc20

/-!
# The slots of a token

What invocations add to each slot, and what they add to groups of slots that no
transfer leaves.
-/

namespace Scs

set_option autoImplicit false

open Interaction

/-! ## What invocations add to a slot -/

section Slots

variable {token : Erc20} {accounts : Finset Address} {slot other : Erc20Slot} {amount : Int64}
  {invocation : Erc20Invocation} {invocations : List Erc20Invocation}

theorem slot_contract (token : Erc20) (slot : Erc20Slot) :
    (token.slotKey slot).extractLsb' 256 256 = token.self := by
  cases slot <;> exact own_contract _ _

theorem neg_amount (nonnegative : 0 ≤ amount.toInt) : (-amount).toInt = -amount.toInt := by
  have highest := amount.toInt_lt
  rw [Int64.toInt_neg, Int.bmod_eq_of_le (by omega) (by omega)]

def Erc20Slot.pick (other slot : Erc20Slot) (amount : ℤ) : ℤ := if other = slot then amount else 0

theorem pick_balance (first second : Address) (amount : ℤ) :
    (Erc20Slot.balance first).pick (.balance second) amount =
      if first = second then amount else 0 := by
  unfold Erc20Slot.pick
  by_cases same : first = second
  · rw [if_pos same, if_pos (congrArg _ same)]
  · rw [if_neg same, if_neg fun slots => same (Erc20Slot.balance.inj slots)]

theorem pick_allowance (owner auth otherOwner otherAuth : Address) (amount : ℤ) :
    (Erc20Slot.allowance owner auth).pick (.allowance otherOwner otherAuth) amount =
      if owner = otherOwner ∧ auth = otherAuth then amount else 0 := by
  unfold Erc20Slot.pick
  by_cases same : owner = otherOwner ∧ auth = otherAuth
  · rw [if_pos same, if_pos (by rw [same.1, same.2])]
  · rw [if_neg same, if_neg fun slots => same (Erc20Slot.allowance.inj slots)]

theorem pick_self (slot : Erc20Slot) (amount : ℤ) : slot.pick slot amount = amount := if_pos rfl

theorem pick_other (different : other ≠ slot) (amount : ℤ) : other.pick slot amount = 0 :=
  if_neg different

theorem adds_slot (other : Erc20Slot) (amount : Int64) (apart : token.KeysApart accounts)
    (here : other.Over accounts) (there : slot.Over accounts) :
    (ProxyCall.nonnegativeInt64Add (token.slotKey other) amount).adds (token.slotKey slot) =
      other.pick slot amount.toInt := by
  by_cases same : other = slot
  · rw [same, pick_self]
    exact if_pos rfl
  · rw [pick_other same]
    exact if_neg fun keys => same (apart other slot here there keys)

theorem transfer_adds (sender fromAccount toAccount : Address) (amount : Int64)
    (slot : Erc20Slot) :
    (Erc20Slot.allowance fromAccount sender).pick slot (-amount.toInt) +
        ((Erc20Slot.balance fromAccount).pick slot (-amount.toInt) +
          (Erc20Slot.balance toAccount).pick slot amount.toInt) =
      Erc20Invocation.adds
        { sender := sender, method := .transferFrom fromAccount toAccount amount } slot := by
  cases slot with
  | allowance owner auth =>
      rw [pick_allowance, pick_other (by intro impossible; cases impossible),
        pick_other (by intro impossible; cases impossible)]
      unfold Erc20Invocation.adds Erc20Invocation.granted Erc20Invocation.spent
      simp only
      split_ifs <;> omega
  | balance account =>
      rw [pick_balance, pick_balance, pick_other (by intro impossible; cases impossible)]
      exact zero_add _
  | _ =>
      rw [pick_other (by intro impossible; cases impossible),
        pick_other (by intro impossible; cases impossible),
        pick_other (by intro impossible; cases impossible)]
      rfl

theorem mint_adds (sender recipient : Address) (amount : Int64) (slot : Erc20Slot) :
    (Erc20Slot.balance recipient).pick slot amount.toInt +
        Erc20Slot.totalSupply.pick slot amount.toInt =
      Erc20Invocation.adds { sender := sender, method := .mint recipient amount } slot := by
  cases slot with
  | balance account =>
      rw [pick_balance, pick_other (by intro impossible; cases impossible)]
      exact add_zero _
  | totalSupply =>
      rw [pick_self, pick_other (by intro impossible; cases impossible)]
      exact zero_add _
  | _ =>
      rw [pick_other (by intro impossible; cases impossible),
        pick_other (by intro impossible; cases impossible)]
      rfl

theorem grant_adds (sender account : Address) (amount : Int64) (slot : Erc20Slot) :
    (Erc20Slot.allowance sender account).pick slot amount.toInt =
      Erc20Invocation.adds { sender := sender, method := .allowanceDelta account amount } slot := by
  cases slot with
  | allowance owner auth =>
      rw [pick_allowance]
      exact (sub_zero _).symm
  | _ =>
      rw [pick_other (by intro impossible; cases impossible)]
      rfl

theorem invocation_adds (apart : token.KeysApart accounts) (lawful : invocation.Lawful)
    (named : ∀ account ∈ invocation.named, account ∈ accounts) (spoken : slot.Over accounts) :
    addedTo (token.slotKey slot) (invocation.calls token) = invocation.adds slot := by
  obtain ⟨sender, method⟩ := invocation
  cases method with
  | transferFrom fromAccount toAccount amount =>
      have sent : sender ∈ accounts := named _ List.mem_cons_self
      have fromNamed : fromAccount ∈ accounts :=
        named _ (List.mem_cons_of_mem _ List.mem_cons_self)
      have toNamed : toAccount ∈ accounts :=
        named _ (List.mem_cons_of_mem _ (List.mem_cons_of_mem _ List.mem_cons_self))
      have negated : (-amount).toInt = -amount.toInt := neg_amount lawful
      rw [← transfer_adds, Erc20Invocation.calls, added_to_cons, added_to_cons, added_to_cons,
        added_to_nil, add_zero,
        adds_slot (.allowance fromAccount sender) _ apart ⟨fromNamed, sent⟩ spoken,
        adds_slot (.balance fromAccount) _ apart fromNamed spoken,
        adds_slot (.balance toAccount) _ apart toNamed spoken, negated]
  | mint recipient amount =>
      have toNamed : recipient ∈ accounts := named _ List.mem_cons_self
      rw [← mint_adds, Erc20Invocation.calls, added_to_cons, added_to_cons, added_to_nil, add_zero,
        adds_slot (.balance recipient) _ apart toNamed spoken,
        adds_slot .totalSupply _ apart trivial spoken]
  | allowanceDelta account amount =>
      have sent : sender ∈ accounts := named _ List.mem_cons_self
      have accountNamed : account ∈ accounts := named _ (List.mem_cons_of_mem _ List.mem_cons_self)
      rw [← grant_adds, Erc20Invocation.calls, added_to_cons, added_to_nil, add_zero,
        adds_slot (.allowance sender account) _ apart ⟨sent, accountNamed⟩ spoken]
  | _ => cases slot <;> rfl

theorem added_call_add {key written : AddressAndKey} (amount : Int64)
    (own : some written = some key) : AddedCall key (.nonnegativeInt64Add written amount) := by
  cases own
  exact .adds amount

theorem added_call_read {key read : AddressAndKey} (own : some read = some key) :
    AddedCall key (.get read) := by
  cases own
  exact .reads

/-- An invocation touches the integers of the token through additions and reads only. -/
theorem invocation_call_added (apart : token.KeysApart accounts) (numeric : slot.Numeric)
    (spoken : slot.Over accounts) {call : ProxyCall} (member : call ∈ invocation.calls token)
    (own : call.key? = some (token.slotKey slot)) : AddedCall (token.slotKey slot) call := by
  have written (other : Erc20Slot) (fixed : other.Over accounts) (raw : ¬ other.Numeric)
      (same : token.slotKey other = token.slotKey slot) : False := by
    rw [apart other slot fixed spoken same] at raw
    exact raw numeric
  obtain ⟨sender, method⟩ := invocation
  cases method with
  | initializeOwner owner =>
      rw [List.mem_singleton.mp member] at own
      exact (written .ownerId trivial id (Option.some.inj own)).elim
  | setMetadata metadata =>
      rcases List.mem_cons.mp member with rfl | member
      · exact added_call_read own
      · rw [List.mem_singleton.mp member] at own
        exact (written .metadata trivial id (Option.some.inj own)).elim
  | transferFrom fromAccount toAccount amount =>
      rcases List.mem_cons.mp member with rfl | member
      · exact added_call_add _ own
      rcases List.mem_cons.mp member with rfl | member
      · exact added_call_add _ own
      · rw [List.mem_singleton.mp member] at own ⊢
        exact added_call_add _ own
  | mint recipient amount =>
      rcases List.mem_cons.mp member with rfl | member
      · exact added_call_add _ own
      · rw [List.mem_singleton.mp member] at own ⊢
        exact added_call_add _ own
  | allowanceDelta account amount =>
      rw [List.mem_singleton.mp member] at own ⊢
      exact added_call_add _ own
  | balanceOf account =>
      rw [List.mem_singleton.mp member] at own ⊢
      exact added_call_read own
  | getMetadata =>
      rw [List.mem_singleton.mp member] at own ⊢
      exact added_call_read own

end Slots

/-! ## How the integers grow -/

section Growth

variable {token : Erc20} {accounts : Finset Address} {slots : Finset Erc20Slot} {slot : Erc20Slot}
  {invocation : Erc20Invocation}

def Erc20.slotKeys (token : Erc20) (slots : Finset Erc20Slot) : Finset AddressAndKey :=
  slots.image token.slotKey

theorem sum_slot_keys (apart : token.KeysApart accounts)
    (spoken : ∀ slot ∈ slots, slot.Over accounts)
    (amounts : AddressAndKey → ℤ) :
    ∑ key ∈ token.slotKeys slots, amounts key = ∑ slot ∈ slots, amounts (token.slotKey slot) := by
  apply Finset.sum_image
  intro left here right there same
  exact apart left right (spoken left here) (spoken right there) same

theorem slots_add (slot : Erc20Slot) (apart : token.KeysApart accounts)
    (spoken : ∀ slot ∈ slots, slot.Over accounts) (here : slot.Over accounts) (amount : Int64)
    (rest : List ProxyCall) :
    addedToAll (token.slotKeys slots) (.nonnegativeInt64Add (token.slotKey slot) amount :: rest) =
      (if slot ∈ slots then amount.toInt else 0) + addedToAll (token.slotKeys slots) rest := by
  have picked : ∑ other ∈ slots, slot.pick other amount.toInt =
      if slot ∈ slots then amount.toInt else 0 := Finset.sum_ite_eq slots slot _
  unfold addedToAll
  rw [sum_slot_keys apart spoken, sum_slot_keys apart spoken, ← picked, ← Finset.sum_add_distrib]
  apply Finset.sum_congr rfl
  intro other member
  rw [added_to_cons, adds_slot slot amount apart here (spoken other member)]

structure Erc20Slot.Together (accounts : Finset Address) (slots : Finset Erc20Slot) : Prop where
  spoken : ∀ slot ∈ slots, slot.Over accounts
  balances : ∀ left ∈ accounts, ∀ right ∈ accounts,
    (.balance left ∈ slots ↔ Erc20Slot.balance right ∈ slots)
  allowances : ∀ owner auth, .allowance owner auth ∉ slots

/-- An invocation never holds more of a group in its middle than at its end: what is
sent is taken first. -/
theorem invocation_grows (apart : token.KeysApart accounts)
    (together : Erc20Slot.Together accounts slots) (lawful : invocation.Lawful)
    (named : ∀ account ∈ invocation.named, account ∈ accounts) :
    PoolGrows (token.slotKeys slots) (invocation.calls token) := by
  have nothing : addedToAll (token.slotKeys slots) [] = 0 := Finset.sum_const_zero
  have idle : ∑ _ ∈ token.slotKeys slots, (0 : ℤ) = 0 := Finset.sum_const_zero
  obtain ⟨sender, method⟩ := invocation
  cases method with
  | transferFrom fromAccount toAccount amount =>
      have sent : sender ∈ accounts := named _ List.mem_cons_self
      have fromNamed : fromAccount ∈ accounts :=
        named _ (List.mem_cons_of_mem _ List.mem_cons_self)
      have toNamed : toAccount ∈ accounts :=
        named _ (List.mem_cons_of_mem _ (List.mem_cons_of_mem _ List.mem_cons_self))
      have positive : 0 ≤ amount.toInt := lawful
      have negated : (-amount).toInt = -amount.toInt := neg_amount positive
      have both := together.balances fromAccount fromNamed toAccount toNamed
      have gives := slots_add (.balance toAccount) apart together.spoken toNamed amount []
      have takes := slots_add (.balance fromAccount) apart together.spoken fromNamed (-amount)
        [.nonnegativeInt64Add (token.slotKey (.balance toAccount)) amount]
      have spends := slots_add (.allowance fromAccount sender) apart together.spoken
        ⟨fromNamed, sent⟩ (-amount)
        [.nonnegativeInt64Add (token.slotKey (.balance fromAccount)) (-amount),
         .nonnegativeInt64Add (token.slotKey (.balance toAccount)) amount]
      rw [if_neg (together.allowances fromAccount sender), zero_add] at spends
      rw [nothing, add_zero] at gives
      have moved : addedToAll (token.slotKeys slots)
          [.nonnegativeInt64Add (token.slotKey (.balance fromAccount)) (-amount),
           .nonnegativeInt64Add (token.slotKey (.balance toAccount)) amount] = 0 := by
        rw [takes, gives]
        by_cases inside : .balance fromAccount ∈ slots
        · rw [if_pos inside, if_pos (both.mp inside), negated]
          exact neg_add_cancel _
        · rw [if_neg inside, if_neg fun there => inside (both.mpr there)]
          exact add_zero _
      refine pool_grows_cons ?_ (pool_grows_cons moved.ge (pool_grows_cons ?_ pool_grows_nil))
      · rw [spends]
        exact moved.ge
      · rw [gives]
        split_ifs
        · exact positive
        · exact le_refl _
  | mint recipient amount =>
      have toNamed : recipient ∈ accounts := named _ List.mem_cons_self
      have positive : 0 ≤ amount.toInt := lawful
      have issues := slots_add .totalSupply apart together.spoken trivial amount []
      have gives := slots_add (.balance recipient) apart together.spoken toNamed amount
        [.nonnegativeInt64Add (token.slotKey .totalSupply) amount]
      refine pool_grows_cons ?_ (pool_grows_cons ?_ pool_grows_nil)
      · rw [gives, issues, nothing]
        split_ifs <;> omega
      · rw [issues, nothing]
        split_ifs <;> omega
  | allowanceDelta account amount =>
      have sent : sender ∈ accounts := named _ List.mem_cons_self
      have accountNamed : account ∈ accounts := named _ (List.mem_cons_of_mem _ List.mem_cons_self)
      have grants := slots_add (.allowance sender account) apart together.spoken
        ⟨sent, accountNamed⟩ amount []
      rw [if_neg (together.allowances sender account), nothing] at grants
      exact pool_grows_cons grants.ge pool_grows_nil
  | initializeOwner owner => exact pool_grows_cons idle.ge pool_grows_nil
  | balanceOf account => exact pool_grows_cons idle.ge pool_grows_nil
  | getMetadata => exact pool_grows_cons idle.ge pool_grows_nil
  | setMetadata metadata => exact pool_grows_cons idle.ge (pool_grows_cons idle.ge pool_grows_nil)

end Growth

/-! ## The invocations of one transaction -/

namespace Erc20

def invoke (token : Erc20) (invocation : Erc20Invocation) : ContractM Unit :=
  token.run invocation.sender invocation.method

end Erc20

section Served

variable {token : Erc20} {accounts : Finset Address} {slots : Finset Erc20Slot} {slot : Erc20Slot}
  {invocations : List Erc20Invocation} {calls : List ProxyCall}

theorem serves_invocations (serves : Serves token.invoke invocations calls) :
    (∀ invocation ∈ invocations, invocation.Lawful) ∧
      calls = invocations.flatMap (Erc20Invocation.calls token) := by
  induction serves with
  | idle =>
      constructor
      · intro invocation impossible
        cases impossible
      · rfl
  | @invoked invocations earlier last invocation before made induction =>
      obtain ⟨lawful, same⟩ := induction
      obtain ⟨fair, own⟩ := run_makes made
      constructor
      · intro other member
        rcases List.mem_append.mp member with there | here
        · exact lawful other there
        · rw [List.mem_singleton.mp here]
          exact fair
      · rw [List.flatMap_append, List.flatMap_singleton, same, own]

theorem served_adds (apart : token.KeysApart accounts)
    (serves : Serves token.invoke invocations calls)
    (named : ∀ invocation ∈ invocations, ∀ account ∈ invocation.named, account ∈ accounts)
    (spoken : slot.Over accounts) :
    addedTo (token.slotKey slot) calls = totalOf (·.adds slot) invocations := by
  obtain ⟨lawful, rfl⟩ := serves_invocations serves
  clear serves
  induction invocations with
  | nil => rfl
  | cons invocation rest induction =>
      have first := invocation_adds apart (lawful invocation List.mem_cons_self)
        (named invocation List.mem_cons_self) spoken
      have others := induction
        (fun other member => named other (List.mem_cons_of_mem invocation member))
        fun other member => lawful other (List.mem_cons_of_mem invocation member)
      rw [List.flatMap_cons, added_to_append, first, others]
      rfl

theorem served_grows (apart : token.KeysApart accounts)
    (together : Erc20Slot.Together accounts slots)
    (serves : Serves token.invoke invocations calls)
    (named : ∀ invocation ∈ invocations, ∀ account ∈ invocation.named, account ∈ accounts) :
    PoolGrows (token.slotKeys slots) calls := by
  obtain ⟨lawful, rfl⟩ := serves_invocations serves
  clear serves
  induction invocations with
  | nil => exact pool_grows_nil
  | cons invocation rest induction =>
      rw [List.flatMap_cons]
      apply pool_grows_append
      · exact invocation_grows apart together (lawful invocation List.mem_cons_self)
          (named invocation List.mem_cons_self)
      · exact induction
          (fun other member => named other (List.mem_cons_of_mem invocation member))
          fun other member => lawful other (List.mem_cons_of_mem invocation member)

theorem served_call_added (apart : token.KeysApart accounts) (numeric : slot.Numeric)
    (spoken : slot.Over accounts) (serves : Serves token.invoke invocations calls)
    {call : ProxyCall}
    (member : call ∈ calls) (own : call.key? = some (token.slotKey slot)) :
    AddedCall (token.slotKey slot) call := by
  obtain ⟨_, rfl⟩ := serves_invocations serves
  obtain ⟨invocation, _, made⟩ := List.mem_flatMap.mp member
  exact invocation_call_added apart numeric spoken made own

end Served

end Scs
