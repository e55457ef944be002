import Mathlib.Data.Finset.Prod
import Scs.Contracts.Erc20Slots
import Scs.Sdk.ReplayProtection
import Scs.TransactionContext.ProposedBlock

/-!
# A token over any number of blocks

The passed transactions of a block add to the keys of a token what their invocations
do to the ledger, in any order. As long as all balances together fit into an
`int64_t`, the committed balances are those of the ledger.
-/

namespace Scs

set_option autoImplicit false

open Interaction Ledger Lockstep Runs TwoPhase Words

/-! ## A block -/

/-- On the keys of the token, the passed transactions of a block have made the calls of
invocations that have returned. -/
structure ServesErc20 {Tx Database : Type} (token : Erc20) (accounts : Finset Address)
    (served : Tx → List Erc20Invocation) (programs : Tx → Program)
    (block : BlockExecution Tx Database) : Prop where
  serves : ∀ tx ∈ block.books.order,
    Serves token.invoke (served tx) (callsAt token.self (block.madeBy programs tx))
  named : ∀ tx ∈ block.books.order, ∀ invocation ∈ served tx,
    ∀ account ∈ invocation.named, account ∈ accounts

section Block

variable {cryptoShorthash : CryptoShorthash} {library : ContractLibrary} {Tx Database : Type}
  [DecidableEq Tx] {store : StateStore Database} {programs : Tx → Program}
  {before : GlobalContext Database} {moves : List (BlockMove Tx)}
  {block : BlockExecution Tx Database} {token : Erc20} {accounts : Finset Address}
  {slots : Finset Erc20Slot} {slot : Erc20Slot} {served : Tx → List Erc20Invocation}

/-- The invocations of a block in the order in which their transactions have passed. -/
def BlockExecution.invocations (served : Tx → List Erc20Invocation)
    (block : BlockExecution Tx Database) : List Erc20Invocation :=
  block.books.order.flatMap served

theorem served_adds_on (steady : SteadyStore store)
    (run : Run (MovesBlock cryptoShorthash library store programs) (.start before) moves block)
    (apart : token.KeysApart accounts) (serves : ServesErc20 token accounts served programs block)
    (spoken : ∀ slot ∈ slots, slot.Over accounts ∧ slot.Numeric) :
    AddsInBlock (token.slotKeys slots) programs block := by
  intro tx listed key member
  obtain ⟨slot, inside, rfl⟩ := Finset.mem_image.mp member
  obtain ⟨within, numeric⟩ := spoken slot inside
  have ended := returned_ended steady run (order_returned run tx listed)
  refine calls_on_of_made ended fun call made own => ?_
  exact served_call_added apart numeric within (serves.serves tx listed)
    (mem_calls_at made own (slot_contract token slot)) own

omit [DecidableEq Tx] in
theorem served_grows_in_block (apart : token.KeysApart accounts)
    (serves : ServesErc20 token accounts served programs block)
    (together : Erc20Slot.Together accounts slots) :
    GrowsInBlock (token.slotKeys slots) programs block := by
  have own : ∀ key ∈ token.slotKeys slots, key.extractLsb' 256 256 = token.self := by
    intro key member
    obtain ⟨slot, _, rfl⟩ := Finset.mem_image.mp member
    exact slot_contract token slot
  intro tx listed
  exact pool_grows_calls_at own
    (served_grows apart together (serves.serves tx listed) (serves.named tx listed))

omit [DecidableEq Tx] in
theorem served_block_added (apart : token.KeysApart accounts)
    (serves : ServesErc20 token accounts served programs block) (spoken : slot.Over accounts) :
    block.added (token.slotKey slot) programs =
      totalOf (·.adds slot) (block.invocations served) := by
  have own (tx : Tx) (listed : tx ∈ block.books.order) :
      addedTo (token.slotKey slot) (block.madeBy programs tx) =
        totalOf (·.adds slot) (served tx) := by
    rw [← added_to_calls_at (slot_contract token slot)]
    exact served_adds apart (serves.serves tx listed) (serves.named tx listed) spoken
  unfold BlockExecution.added BlockExecution.invocations
  generalize block.books.order = order at own
  induction order with
  | nil => rfl
  | cons tx rest induction =>
      rw [List.map_cons, List.sum_cons, List.flatMap_cons, total_of_append,
        own tx List.mem_cons_self,
        induction fun other member => own other (List.mem_cons_of_mem tx member)]

end Block

/-! ## Blocks in a row -/

/-- Blocks that serve the token, committed or undone, and the invocations of the
committed ones. -/
inductive Erc20Chain (cryptoShorthash : CryptoShorthash) (library : ContractLibrary) (Tx : Type)
    {Database : Type} [DecidableEq Tx] (store : StateStore Database) (token : Erc20)
    (accounts : Finset Address) (start : GlobalContext Database) :
    List Erc20Invocation → GlobalContext Database → Prop
  | start : Erc20Chain cryptoShorthash library Tx store token accounts start [] start
  | finished {invocations : List Erc20Invocation} {before : GlobalContext Database}
      {newKey : HashKey} {logged : List AddressAndKey} {stateDb : Database}
      {contractDb : ContractDB} {thread : Fin tlcacheSize} {timestamp : UInt32}
      (earlier : Erc20Chain cryptoShorthash library Tx store token accounts start invocations
        before)
      (block : ClosedBlock cryptoShorthash library Tx store before)
      (served : Tx → List Erc20Invocation)
      (serves : ServesErc20 token accounts served block.programs block.last)
      (permuted : logged.Perm block.last.modifiedKeys)
      (contracts : block.last.globalContext.contractDb.commit thread timestamp = .ok contractDb)
      (modifications : store.commitModifications newKey logged block.last.globalContext.stateDb =
        .ok stateDb) :
      Erc20Chain cryptoShorthash library Tx store token accounts start
        (invocations ++ block.last.invocations served)
        { stateDb := stateDb, contractDb := contractDb }
  | undone {invocations : List Erc20Invocation} {before : GlobalContext Database}
      {newKey : HashKey} {logged : List AddressAndKey} {stateDb : Database}
      (earlier : Erc20Chain cryptoShorthash library Tx store token accounts start invocations
        before)
      (block : ClosedBlock cryptoShorthash library Tx store before)
      (permuted : logged.Perm block.last.modifiedKeys)
      (modifications : store.rewindModifications newKey logged block.last.globalContext.stateDb =
        .ok stateDb) :
      Erc20Chain cryptoShorthash library Tx store token accounts start invocations
        { stateDb := stateDb, contractDb := block.last.globalContext.contractDb.rewind }

def Erc20Ledger.amount (ledger : Erc20Ledger) : Erc20Slot → ℤ
  | .balance account => ledger.balance account
  | .allowance owner auth => ledger.allowance owner auth
  | .totalSupply => ledger.totalSupply
  | _ => 0

def Erc20.Stores (token : Erc20) (committed : CommittedValues) (slot : Erc20Slot) (amount : ℤ) :
    Prop :=
  ∃ value : Int64, heldInt64 (committed (token.slotKey slot)) = some value ∧ value.toInt = amount

theorem ledger_amounts (ledger : Erc20Ledger) (invocations : List Erc20Invocation)
    {slot : Erc20Slot} (numeric : slot.Numeric) :
    (invocations.foldl Erc20Ledger.apply ledger).amount slot =
      ledger.amount slot + totalOf (·.adds slot) invocations := by
  obtain ⟨balances, allowances, supply⟩ := ledger_after ledger invocations
  cases slot with
  | ownerId => cases numeric
  | metadata => cases numeric
  | totalSupply => exact supply
  | balance account => exact balances account
  | allowance owner auth =>
      have split : totalOf (fun invocation => invocation.adds (.allowance owner auth)) invocations =
          totalOf (·.granted owner auth) invocations - totalOf (·.spent owner auth) invocations :=
        total_of_sub _ _ invocations
      rw [split]
      exact (allowances owner auth).trans (add_sub_assoc _ _ _)

section Chain

variable {cryptoShorthash : CryptoShorthash} {library : ContractLibrary} {Tx Database : Type}
  [DecidableEq Tx] {store : StateStore Database} {view : SettlingStore cryptoShorthash store}
  {token : Erc20} {accounts : Finset Address} {start last : GlobalContext Database}
  {invocations : List Erc20Invocation} {ledger : Erc20Ledger} {slots : Finset Erc20Slot}

theorem erc20_chain_added (apart : token.KeysApart accounts)
    (chain : Erc20Chain cryptoShorthash library Tx store token accounts start invocations last) :
    (∀ invocation ∈ invocations, ∀ account ∈ invocation.named, account ∈ accounts) ∧
    ∃ added, AddedChain cryptoShorthash library Tx store
        (fun _ block => ∃ served, ServesErc20 token accounts served block.programs block.last)
        start added last ∧
      ∀ slot : Erc20Slot, slot.Over accounts →
        added (token.slotKey slot) = totalOf (·.adds slot) invocations := by
  induction chain with
  | start =>
      refine ⟨?_, _, .start, fun _ _ => rfl⟩
      intro invocation impossible
      cases impossible
  | finished earlier block served serves permuted contracts modifications induction =>
      obtain ⟨named, added, chain, amounts⟩ := induction
      refine ⟨?_, _, .finished chain block ⟨served, serves⟩ permuted contracts modifications, ?_⟩
      · intro invocation member
        rcases List.mem_append.mp member with before | now
        · exact named invocation before
        · obtain ⟨tx, listed, inside⟩ := List.mem_flatMap.mp now
          exact serves.named tx listed invocation inside
      · intro slot spoken
        rw [total_of_append, amounts slot spoken, served_block_added apart serves spoken]
  | undone earlier block permuted modifications induction =>
      obtain ⟨named, added, chain, amounts⟩ := induction
      exact ⟨named, added, .undone chain block permuted modifications, amounts⟩

variable (slots) in
theorem erc20_chain_slots (rested : Rested view start.stateDb) (steady : SteadyStore store)
    (apart : token.KeysApart accounts) (spoken : ∀ slot ∈ slots, slot.Over accounts ∧ slot.Numeric)
    (held : ∀ slot ∈ slots, 0 ≤ ledger.amount slot ∧
      token.Stores (fun key => store.getCommittedValue key start.stateDb) slot (ledger.amount slot))
    (chain : Erc20Chain cryptoShorthash library Tx store token accounts start invocations last) :
    ∃ left : Erc20Slot → ℤ, (∀ slot ∈ slots, 0 ≤ left slot ∧
        left slot ≤ (invocations.foldl Erc20Ledger.apply ledger).amount slot ∧
        token.Stores (fun key => store.getCommittedValue key last.stateDb) slot (left slot)) ∧
      (Erc20Slot.Together accounts slots →
        ∑ slot ∈ slots, (invocations.foldl Erc20Ledger.apply ledger).amount slot < 2 ^ 63 →
        ∀ slot ∈ slots,
          left slot = (invocations.foldl Erc20Ledger.apply ledger).amount slot) := by
  obtain ⟨_, added, added_chain, amounts⟩ := erc20_chain_added apart chain
  have within (slot : Erc20Slot) (member : slot ∈ slots) := (spoken slot member).1
  have final (slot : Erc20Slot) (member : slot ∈ slots) :
      ledger.amount slot + added (token.slotKey slot) =
        (invocations.foldl Erc20Ledger.apply ledger).amount slot := by
    rw [ledger_amounts ledger invocations (spoken slot member).2, amounts slot (within slot member)]
  have stored (key : AddressAndKey) (member : key ∈ token.slotKeys slots) :
      ∃ value : Int64, heldInt64 (store.getCommittedValue key start.stateDb) = some value ∧
        0 ≤ value.toInt ∧ ∀ slot ∈ slots, token.slotKey slot = key →
          value.toInt = ledger.amount slot := by
    obtain ⟨slot, inside, rfl⟩ := Finset.mem_image.mp member
    obtain ⟨nonnegative, value, holds, same⟩ := held slot inside
    refine ⟨value, holds, same ▸ nonnegative, fun other there keys => ?_⟩
    rw [apart other slot (within other there) (within slot inside) keys]
    exact same
  choose! values holds nonnegative amount using stored
  have initial (slot : Erc20Slot) (member : slot ∈ slots) :
      (values (token.slotKey slot)).toInt = ledger.amount slot :=
    amount _ (Finset.mem_image_of_mem _ member) slot member rfl
  have pool : PoolHolds (token.slotKeys slots) values
      fun key => store.getCommittedValue key start.stateDb := ⟨holds, nonnegative⟩
  obtain ⟨_, left, accounted⟩ := chain_added rested steady pool (fun before block guarded => by
    obtain ⟨served, serves⟩ := guarded
    exact served_adds_on steady block.run apart serves spoken) added_chain
  refine ⟨fun slot => (left (token.slotKey slot)).toInt, ?_, ?_⟩
  · intro slot member
    have inside := Finset.mem_image_of_mem token.slotKey member
    have upper := accounted.upper _ inside
    rw [initial slot member, final slot member] at upper
    exact ⟨accounted.nonnegative _ inside, upper, _, accounted.held _ inside, rfl⟩
  · intro together room slot member
    have inside := Finset.mem_image_of_mem token.slotKey member
    have grows : ChainGrows (token.slotKeys slots)
        fun before (block : ClosedBlock cryptoShorthash library Tx store before) =>
          ∃ served, ServesErc20 token accounts served block.programs block.last := by
      intro before block guarded
      obtain ⟨served, serves⟩ := guarded
      exact served_grows_in_block apart serves together
    have fits : ∑ key ∈ token.slotKeys slots, (values key).toInt +
        ∑ key ∈ token.slotKeys slots, added key < 2 ^ 63 := by
      rw [← Finset.sum_add_distrib, sum_slot_keys apart within]
      exact (Finset.sum_congr rfl fun slot member => by
        rw [initial slot member, final slot member]).trans_lt room
    have exactly := accounted.exactly grows fits _ inside
    rw [initial slot member, final slot member] at exactly
    exact exactly

/-! ## What the accounts own -/

def balanceSlots (accounts : Finset Address) : Finset Erc20Slot := accounts.image .balance

def integerSlots (accounts : Finset Address) : Finset Erc20Slot :=
  insert .totalSupply (balanceSlots accounts ∪
    (accounts ×ˢ accounts).image fun pair => .allowance pair.1 pair.2)

theorem integer_slot_iff {slot : Erc20Slot} :
    slot ∈ integerSlots accounts ↔ slot.Over accounts ∧ slot.Numeric := by
  unfold integerSlots balanceSlots
  rw [Finset.mem_insert, Finset.mem_union, Finset.mem_image, Finset.mem_image]
  constructor
  · rintro (rfl | ⟨account, member, rfl⟩ | ⟨⟨owner, auth⟩, member, rfl⟩)
    · exact ⟨trivial, trivial⟩
    · exact ⟨member, trivial⟩
    · exact ⟨Finset.mem_product.mp member, trivial⟩
  · rintro ⟨spoken, numeric⟩
    cases slot with
    | ownerId => cases numeric
    | metadata => cases numeric
    | totalSupply => exact .inl rfl
    | balance account => exact .inr (.inl ⟨account, spoken, rfl⟩)
    | allowance owner auth => exact .inr (.inr ⟨(owner, auth), Finset.mem_product.mpr spoken, rfl⟩)

theorem sum_balance_slots (amounts : Erc20Slot → ℤ) :
    ∑ slot ∈ balanceSlots accounts, amounts slot =
      ∑ account ∈ accounts, amounts (.balance account) :=
  Finset.sum_image fun _ _ _ _ same => Erc20Slot.balance.inj same

theorem balances_together : Erc20Slot.Together accounts (balanceSlots accounts) where
  spoken slot member := by
    obtain ⟨account, inside, rfl⟩ := Finset.mem_image.mp member
    exact inside
  balances left here right there :=
    iff_of_true (Finset.mem_image_of_mem _ here) (Finset.mem_image_of_mem _ there)
  allowances owner auth member := by
    obtain ⟨account, _, impossible⟩ := Finset.mem_image.mp member
    cases impossible

theorem supply_together : Erc20Slot.Together accounts {.totalSupply} where
  spoken slot member := by
    rw [Finset.mem_singleton.mp member]
    trivial
  balances left _ right _ := by
    rw [Finset.mem_singleton, Finset.mem_singleton]
    exact iff_of_false (fun impossible => by cases impossible) fun impossible => by cases impossible
  allowances owner auth member := by
    cases Finset.mem_singleton.mp member

structure Erc20.Keeps (token : Erc20) (accounts : Finset Address) (committed : CommittedValues)
    (ledger : Erc20Ledger) : Prop where
  balances : ∀ account ∈ accounts, 0 ≤ ledger.balance account ∧
    token.Stores committed (.balance account) (ledger.balance account)
  totalSupply : 0 ≤ ledger.totalSupply ∧ token.Stores committed .totalSupply ledger.totalSupply

/-- The invocations of a chain change what the accounts own together by what they mint. -/
theorem ledger_conserves (ledger : Erc20Ledger) (named : ∀ invocation ∈ invocations,
    ∀ account ∈ invocation.named, account ∈ accounts) :
    ∑ account ∈ accounts, (invocations.foldl Erc20Ledger.apply ledger).balance account =
      ∑ account ∈ accounts, ledger.balance account + totalOf (·.minted) invocations := by
  have after := (ledger_after ledger invocations).1
  rw [← total_received named, ← Finset.sum_add_distrib]
  exact Finset.sum_congr rfl fun account _ => after account

theorem together_kept (rested : Rested view start.stateDb) (steady : SteadyStore store)
    (apart : token.KeysApart accounts) (together : Erc20Slot.Together accounts slots)
    (numeric : ∀ slot ∈ slots, slot.Numeric)
    (held : ∀ slot ∈ slots, 0 ≤ ledger.amount slot ∧
      token.Stores (fun key => store.getCommittedValue key start.stateDb) slot (ledger.amount slot))
    (room : ∑ slot ∈ slots, (invocations.foldl Erc20Ledger.apply ledger).amount slot < 2 ^ 63)
    (chain : Erc20Chain cryptoShorthash library Tx store token accounts start invocations last) :
    ∀ slot ∈ slots, 0 ≤ (invocations.foldl Erc20Ledger.apply ledger).amount slot ∧
      token.Stores (fun key => store.getCommittedValue key last.stateDb) slot
        ((invocations.foldl Erc20Ledger.apply ledger).amount slot) := by
  obtain ⟨left, bounds, exactly⟩ := erc20_chain_slots slots rested steady apart
    (fun slot member => ⟨together.spoken slot member, numeric slot member⟩) held chain
  intro slot member
  obtain ⟨nonnegative, _, stores⟩ := bounds slot member
  rw [← exactly together room slot member]
  exact ⟨nonnegative, stores⟩

/-- Over any chain of blocks, in any interleaving of their transactions, the committed
balances are those of the ledger as long as all that was minted fits an `int64_t`, and
nothing but a mint changes their sum. -/
theorem erc20_follows_ledger (rested : Rested view start.stateDb) (steady : SteadyStore store)
    (apart : token.KeysApart accounts)
    (keeps : token.Keeps accounts (fun key => store.getCommittedValue key start.stateDb) ledger)
    (chain : Erc20Chain cryptoShorthash library Tx store token accounts start invocations last)
    (room : ∑ account ∈ accounts, ledger.balance account + totalOf (·.minted) invocations < 2 ^ 63)
    (supplyRoom : ledger.totalSupply + totalOf (·.minted) invocations < 2 ^ 63) :
    token.Keeps accounts (fun key => store.getCommittedValue key last.stateDb)
        (invocations.foldl Erc20Ledger.apply ledger) ∧
      ∑ account ∈ accounts, (invocations.foldl Erc20Ledger.apply ledger).balance account =
        ∑ account ∈ accounts, ledger.balance account + totalOf (·.minted) invocations ∧
      (invocations.foldl Erc20Ledger.apply ledger).totalSupply =
        ledger.totalSupply + totalOf (·.minted) invocations := by
  have conserved := ledger_conserves ledger (erc20_chain_added apart chain).1
  have issued := (ledger_after ledger invocations).2.2
  refine ⟨⟨?_, ?_⟩, conserved, issued⟩
  · intro account member
    refine together_kept rested steady apart balances_together ?_ ?_ ?_ chain
      (.balance account) (Finset.mem_image_of_mem _ member)
    · intro slot inside
      obtain ⟨account, _, rfl⟩ := Finset.mem_image.mp inside
      trivial
    · intro slot inside
      obtain ⟨account, here, rfl⟩ := Finset.mem_image.mp inside
      exact keeps.balances account here
    · rw [sum_balance_slots]
      exact conserved.trans_lt room
  · refine together_kept rested steady apart supply_together ?_ ?_ ?_ chain
      .totalSupply (Finset.mem_singleton_self _)
    · intro slot inside
      rw [Finset.mem_singleton.mp inside]
      trivial
    · intro slot inside
      rw [Finset.mem_singleton.mp inside]
      exact keeps.totalSupply
    · rw [Finset.sum_singleton]
      exact issued.trans_lt supplyRoom

/-- Over any chain of blocks nobody owns a negative amount or more than the ledger says,
the accounts together own no more than there was and was minted, and nobody moves away
more than was granted. -/
theorem erc20_never_overspends (rested : Rested view start.stateDb) (steady : SteadyStore store)
    (apart : token.KeysApart accounts)
    (held : ∀ slot : Erc20Slot, slot.Over accounts → slot.Numeric → 0 ≤ ledger.amount slot ∧
      token.Stores (fun key => store.getCommittedValue key start.stateDb) slot (ledger.amount slot))
    (chain : Erc20Chain cryptoShorthash library Tx store token accounts start invocations last) :
    ∃ left : Erc20Slot → ℤ,
      (∀ slot : Erc20Slot, slot.Over accounts → slot.Numeric → 0 ≤ left slot ∧
        left slot ≤ (invocations.foldl Erc20Ledger.apply ledger).amount slot ∧
        token.Stores (fun key => store.getCommittedValue key last.stateDb) slot (left slot)) ∧
      ∑ account ∈ accounts, left (.balance account) ≤
        ∑ account ∈ accounts, ledger.balance account + totalOf (·.minted) invocations ∧
      ∀ owner ∈ accounts, ∀ auth ∈ accounts, totalOf (·.spent owner auth) invocations ≤
        ledger.allowance owner auth + totalOf (·.granted owner auth) invocations := by
  obtain ⟨left, bounds, _⟩ := erc20_chain_slots (integerSlots accounts) rested steady apart
    (fun slot => integer_slot_iff.mp)
    (fun slot member => held slot (integer_slot_iff.mp member).1 (integer_slot_iff.mp member).2)
    chain
  have all (slot : Erc20Slot) (spoken : slot.Over accounts) (numeric : slot.Numeric) :=
    bounds slot (integer_slot_iff.mpr ⟨spoken, numeric⟩)
  refine ⟨left, all, ?_, ?_⟩
  · rw [← ledger_conserves ledger (erc20_chain_added apart chain).1]
    exact Finset.sum_le_sum fun account member => (all (.balance account) member trivial).2.1
  · intro owner ownerNamed auth authNamed
    obtain ⟨nonnegative, upper, _⟩ := all (.allowance owner auth) ⟨ownerNamed, authNamed⟩ trivial
    have after := (ledger_after ledger invocations).2.1 owner auth
    have same : (invocations.foldl Erc20Ledger.apply ledger).amount (.allowance owner auth) =
        (invocations.foldl Erc20Ledger.apply ledger).allowance owner auth := rfl
    omega

end Chain

/-! ## A mint, a grant and a payment -/

def sampleToken : Erc20 where
  self := 9
  hash bytes := BitVec.ofNat 256 (bytes.foldl (fun sum byte => 5 * sum + byte.toNat) bytes.length)

def sampleInvocations : List Erc20Invocation :=
  [{ sender := 1, method := .mint 1 7 },
   { sender := 1, method := .allowanceDelta 2 5 },
   { sender := 2, method := .transferFrom 1 2 3 }]

theorem invocation_contract {token : Erc20} {invocation : Erc20Invocation} {call : ProxyCall}
    (member : call ∈ invocation.calls token) : call.contract? = some token.self := by
  have own (slot : Erc20Slot) :
      (some (token.slotKey slot)).map (fun key => key.extractLsb' 256 256) = some token.self :=
    congrArg some (slot_contract token slot)
  obtain ⟨sender, method⟩ := invocation
  cases method <;> simp only [Erc20Invocation.calls, List.mem_cons, List.not_mem_nil, or_false]
    at member
  case transferFrom => rcases member with rfl | rfl | rfl <;> exact own _
  case mint => rcases member with rfl | rfl <;> exact own _
  case setMetadata => rcases member with rfl | rfl <;> exact own _
  all_goals
    cases member
    exact own _

def samplePrograms : Unit → Program := fun _ =>
  makesCalls (sampleInvocations.flatMap (Erc20Invocation.calls sampleToken))

def sampleStart : GlobalContext StateDBv2 where
  stateDb := { stateDb := fun _ => none }
  contractDb := .empty

def sampleMoves : List (BlockMove Unit) :=
  List.replicate 7 (.call ()) ++ List.replicate 4 (.push () .first) ++ [.pass ()] ++
    List.replicate 4 (.commit 0)

theorem over_iff {accounts : Finset Address} {slot : Erc20Slot} :
    slot ∈ insert .ownerId (insert .metadata (integerSlots accounts)) ↔ slot.Over accounts := by
  rw [Finset.mem_insert, Finset.mem_insert, integer_slot_iff]
  cases slot with
  | ownerId => exact iff_of_true (.inl rfl) trivial
  | metadata => exact iff_of_true (.inr (.inl rfl)) trivial
  | totalSupply => exact iff_of_true (.inr (.inr ⟨trivial, trivial⟩)) trivial
  | balance account =>
      constructor
      · rintro (impossible | impossible | ⟨spoken, _⟩)
        · cases impossible
        · cases impossible
        · exact spoken
      · exact fun spoken => .inr (.inr ⟨spoken, trivial⟩)
  | allowance owner auth =>
      constructor
      · rintro (impossible | impossible | ⟨spoken, _⟩)
        · cases impossible
        · cases impossible
        · exact spoken
      · exact fun spoken => .inr (.inr ⟨spoken, trivial⟩)

theorem sample_apart : sampleToken.KeysApart {1, 2} := by
  have distinct : ∀ left ∈ insert .ownerId (insert .metadata (integerSlots {1, 2})),
      ∀ right ∈ insert .ownerId (insert .metadata (integerSlots {1, 2})),
      sampleToken.slotKey left = sampleToken.slotKey right → left = right := by
    decide +kernel
  exact fun left right here there => distinct left (over_iff.mpr here) right (over_iff.mpr there)

theorem sample_serves : Serves sampleToken.invoke sampleInvocations
    (sampleInvocations.flatMap (Erc20Invocation.calls sampleToken)) := by
  have minted : Makes () (Erc20Invocation.calls sampleToken
      { sender := 1, method := .mint 1 7 }) (sampleToken.invoke
      { sender := 1, method := .mint 1 7 }) := .answered .done (.answered .done .done)
  have granted : Makes () (Erc20Invocation.calls sampleToken
      { sender := 1, method := .allowanceDelta 2 5 }) (sampleToken.invoke
      { sender := 1, method := .allowanceDelta 2 5 }) := .answered .done .done
  have paid : Makes () (Erc20Invocation.calls sampleToken
      { sender := 2, method := .transferFrom 1 2 3 }) (sampleToken.invoke
      { sender := 2, method := .transferFrom 1 2 3 }) :=
    .answered .done (.answered .done (.answered .done .done))
  exact .invoked (.invoked (.invoked .idle minted) granted) paid

theorem sample_named : ∀ invocation ∈ sampleInvocations,
    ∀ account ∈ invocation.named, account ∈ ({1, 2} : Finset Address) := by
  intro invocation member account named
  rw [Finset.mem_insert, Finset.mem_singleton]
  simp only [sampleInvocations, List.mem_cons, List.not_mem_nil, or_false] at member
  rcases member with rfl | rfl | rfl <;>
    simp only [Erc20Invocation.named, List.mem_cons, List.not_mem_nil, or_false] at named
  · exact .inl named
  · exact named
  · rcases named with rfl | rfl | rfl
    · exact .inr rfl
    · exact .inl rfl
    · exact .inr rfl

theorem sample_chain : ∃ last, Erc20Chain (fun _ => 0) noContracts Unit
    (StateDBv2.store fun _ => 0) sampleToken {1, 2} sampleStart sampleInvocations last := by
  have ended : (BlockExecution.finishAll (fun _ => 0) noContracts (StateDBv2.store fun _ => 0)
      samplePrograms 0 firstThread 1 sampleMoves sampleStart).map (fun ended =>
        (ended.1.books.order, (ended.1.contexts ()).results)) =
          some ([()], List.replicate 6 .done) := by
    decide +kernel
  obtain ⟨⟨block, last⟩, finished, facts⟩ := Option.map_eq_some_iff.mp ended
  obtain ⟨order, results⟩ := Prod.mk.inj facts
  obtain ⟨run, quiescent, contracts, modifications⟩ := finish_all_ends finished
  have made : callsAt sampleToken.self (block.madeBy samplePrograms ()) =
      sampleInvocations.flatMap (Erc20Invocation.calls sampleToken) := by
    unfold BlockExecution.madeBy samplePrograms
    rw [results, made_makes_calls, List.take_of_length_le (by decide)]
    apply List.filter_eq_self.mpr
    intro call member
    obtain ⟨invocation, _, inside⟩ := List.mem_flatMap.mp member
    exact decide_eq_true (invocation_contract inside)
  have whole : block.invocations (fun _ => sampleInvocations) = sampleInvocations := by
    unfold BlockExecution.invocations
    rw [order]
    exact List.append_nil _
  have serves : ServesErc20 sampleToken {1, 2} (fun _ => sampleInvocations) samplePrograms
      block := by
    constructor
    · intro tx _
      rw [made]
      exact sample_serves
    · exact fun tx _ => sample_named
  have chain : Erc20Chain (fun _ => 0) noContracts Unit (StateDBv2.store fun _ => 0) sampleToken
      {1, 2} sampleStart ([] ++ block.invocations fun _ => sampleInvocations)
      last :=
    .finished .start
      { programs := samplePrograms
        moves := sampleMoves
        last := block
        run := run
        quiescent := quiescent }
      _ serves (List.Perm.refl _) contracts modifications
  rw [whole, List.nil_append] at chain
  exact ⟨_, chain⟩

def emptyLedger : Erc20Ledger where
  balance _ := 0
  allowance _ _ := 0
  totalSupply := 0

theorem sample_stores (slot : Erc20Slot) :
    0 ≤ emptyLedger.amount slot ∧
      sampleToken.Stores (fun key => (StateDBv2.store fun _ => 0).getCommittedValue key
        sampleStart.stateDb) slot (emptyLedger.amount slot) := by
  have nothing : emptyLedger.amount slot = 0 := by cases slot <;> rfl
  rw [nothing]
  exact ⟨le_refl _, 0, rfl, rfl⟩

theorem erc20_follows_ledger_paid : ∃ last ledger,
    ledger.balance 1 = 4 ∧ ledger.balance 2 = 3 ∧ ledger.totalSupply = 7 ∧
    sampleToken.Keeps {1, 2}
      (fun key => (StateDBv2.store fun _ => 0).getCommittedValue key last) ledger := by
  obtain ⟨last, chain⟩ := sample_chain
  have rested : Rested (StateDBv2.node fun _ => 0).view sampleStart.stateDb :=
    rested_empty trivial fun _ => rfl
  have kept := erc20_follows_ledger rested (StateDBv2.node fun _ => 0).steady sample_apart
    ⟨fun account _ => sample_stores (.balance account), sample_stores .totalSupply⟩ chain
    (by decide +kernel) (by decide +kernel)
  exact ⟨last.stateDb, _, by decide +kernel, by decide +kernel, by decide +kernel, kept.1⟩

theorem erc20_never_overspends_paid : totalOf (·.spent 1 2) sampleInvocations = 3 ∧
    totalOf (·.spent 1 2) sampleInvocations ≤
      emptyLedger.allowance 1 2 + totalOf (·.granted 1 2) sampleInvocations := by
  obtain ⟨last, chain⟩ := sample_chain
  have rested : Rested (StateDBv2.node fun _ => 0).view sampleStart.stateDb :=
    rested_empty trivial fun _ => rfl
  obtain ⟨_, _, _, spent⟩ := erc20_never_overspends rested (StateDBv2.node fun _ => 0).steady
    sample_apart (fun slot _ _ => sample_stores slot) chain
  exact ⟨by decide +kernel, spent 1 (by decide) 2 (by decide)⟩

end Scs
