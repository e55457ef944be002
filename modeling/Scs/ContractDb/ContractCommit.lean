import Scs.ContractDb.ContractDB
import Scs.Library.Lockstep

/-!
# What the end of a block does to the contract database

`commit` enters the new scripts first and binds the addresses of the deployments
then. It returns exactly when every script is new, every address is free and
every deployed script is known.
-/

namespace Scs

set_option autoImplicit false

open Lockstep

theorem UncommittedContracts.add_new_contract_ok_iff {contracts after : UncommittedContracts}
    {h : Hash} {contract : MeteredContract} :
    contracts.addNewContract h contract = .ok after ↔ contracts.newContracts.find h = none ∧
      after = { contracts with newContracts := contracts.newContracts.assign h contract } := by
  unfold addNewContract SortedMap.emplace
  cases known : contracts.newContracts.find h with
  | none =>
      constructor
      · intro added
        cases added
        exact ⟨rfl, rfl⟩
      · rintro ⟨_, rfl⟩
        rfl
  | some held =>
      constructor
      · intro impossible
        cases impossible
      · rintro ⟨impossible, _⟩
        cases impossible

namespace ContractDB

section Commit

variable {db after : ContractDB} {h : Hash} {contract : MeteredContract} {addr : Address}
  {contracts : List (Hash × MeteredContract)} {deployments : List (Address × Hash)}
  {thread : Fin tlcacheSize} {timestamp : UInt32}

theorem get_script_by_address_iff {script : List UInt8} :
    db.getScriptByAddress addr = .ok (some script) ↔
      db.addressesToContracts addr = some { base := some script } := by
  unfold getScriptByAddress MeteredContract.toView nullScript
  cases db.addressesToContracts addr with
  | none => simp
  | some contract =>
      obtain ⟨base⟩ := contract
      cases base <;> simp

theorem get_script_by_hash_iff {script : List UInt8} :
    db.getScriptByHash h = some script ↔
      db.hashesToContracts.find h = some { base := some script } := by
  unfold getScriptByHash MeteredContract.toView nullScript
  cases db.hashesToContracts.find h with
  | none => simp
  | some contract =>
      obtain ⟨base⟩ := contract
      cases base <;> simp

theorem commit_contract_ok_iff :
    db.commitContractToDb h contract = .ok after ↔ db.hashesToContracts.find h = none ∧
      after = { db with hashesToContracts := db.hashesToContracts.assign h contract } := by
  unfold commitContractToDb SortedMap.emplace
  cases known : db.hashesToContracts.find h with
  | none =>
      constructor
      · intro committed
        cases committed
        exact ⟨rfl, rfl⟩
      · rintro ⟨_, rfl⟩
        rfl
  | some held =>
      constructor
      · intro impossible
        cases impossible
      · rintro ⟨impossible, _⟩
        cases impossible

theorem commit_registration_ok_iff :
    db.commitRegistration thread addr h = .ok after ↔
      ∃ contract, db.hashesToContracts.find h = some contract ∧
        db.addressesToContracts addr = none ∧
        after = { db with
                  addressesToContracts :=
                    Function.update db.addressesToContracts addr (some contract)
                  persistence := db.persistence.logDeploy thread addr h } := by
  unfold commitRegistration
  cases known : db.hashesToContracts.find h with
  | none =>
      constructor
      · intro impossible
        cases impossible
      · rintro ⟨_, impossible, _⟩
        cases impossible
  | some contract =>
      cases bound : db.addressesToContracts addr with
      | none =>
          constructor
          · intro committed
            cases committed
            exact ⟨contract, rfl, rfl, rfl⟩
          · rintro ⟨_, ⟨⟩, _, rfl⟩
            rfl
      | some other =>
          constructor
          · intro impossible
            cases impossible
          · rintro ⟨_, _, impossible, _⟩
            cases impossible

theorem commit_contracts_cons_iff {entry : Hash × MeteredContract} :
    db.commitContracts (entry :: contracts) = .ok after ↔
      ∃ middle, db.commitContractToDb entry.1 entry.2 = .ok middle ∧
        middle.commitContracts contracts = .ok after := by
  unfold commitContracts
  rw [List.foldlM_cons]
  exact bind_ok_iff

theorem commit_registrations_cons_iff {entry : Address × Hash} :
    db.commitRegistrations thread (entry :: deployments) = .ok after ↔
      ∃ middle, db.commitRegistration thread entry.1 entry.2 = .ok middle ∧
        middle.commitRegistrations thread deployments = .ok after := by
  unfold commitRegistrations
  rw [List.foldlM_cons]
  exact bind_ok_iff

/-! ## The passes -/

theorem commit_contracts_spec (distinct : (contracts.map Prod.fst).Nodup)
    (committed : db.commitContracts contracts = .ok after) :
    (∀ entry ∈ contracts, after.hashesToContracts.find entry.1 = some entry.2) ∧
      (∀ h, h ∉ contracts.map Prod.fst →
        after.hashesToContracts.find h = db.hashesToContracts.find h) ∧
      after = { db with hashesToContracts := after.hashesToContracts } := by
  induction contracts generalizing db with
  | nil =>
      cases committed
      exact ⟨fun entry member => absurd member List.not_mem_nil, fun _ _ => rfl, rfl⟩
  | cons first rest induction =>
      rw [List.map_cons, List.nodup_cons] at distinct
      obtain ⟨middle, now, later⟩ := commit_contracts_cons_iff.mp committed
      obtain ⟨_, rfl⟩ := commit_contract_ok_iff.mp now
      obtain ⟨inside, outside, frame⟩ := induction distinct.2 later
      refine ⟨?_, ?_, frame⟩
      · intro entry member
        rcases List.mem_cons.mp member with rfl | tail
        · rw [outside entry.1 distinct.1]
          exact SortedMap.find_assign_self
        · exact inside entry tail
      · intro h stranger
        rw [List.map_cons, List.mem_cons, not_or] at stranger
        rw [outside h stranger.2]
        exact SortedMap.find_assign_other stranger.1

/-- New scripts are entered exactly when none of them is known. An entry that is there
already throws, in the middle of the commit. -/
theorem commit_contracts_returns_iff (distinct : (contracts.map Prod.fst).Nodup) :
    (∃ after, db.commitContracts contracts = .ok after) ↔
      ∀ entry ∈ contracts, db.hashesToContracts.find entry.1 = none := by
  induction contracts generalizing db with
  | nil => exact ⟨fun _ entry member => absurd member List.not_mem_nil, fun _ => ⟨db, rfl⟩⟩
  | cons first rest induction =>
      rw [List.map_cons, List.nodup_cons] at distinct
      have unchanged : ∀ entry ∈ rest,
          (db.hashesToContracts.assign first.1 first.2).find entry.1 =
            db.hashesToContracts.find entry.1 := by
        intro entry member
        apply SortedMap.find_assign_other
        intro same
        exact distinct.1 (same ▸ List.mem_map_of_mem member)
      constructor
      · rintro ⟨after, committed⟩ entry member
        obtain ⟨middle, now, later⟩ := commit_contracts_cons_iff.mp committed
        obtain ⟨unknown, rfl⟩ := commit_contract_ok_iff.mp now
        rcases List.mem_cons.mp member with rfl | tail
        · exact unknown
        · rw [← unchanged entry tail]
          exact (induction distinct.2).mp ⟨after, later⟩ entry tail
      · intro unknown
        let next : ContractDB :=
          { db with hashesToContracts := db.hashesToContracts.assign first.1 first.2 }
        have now : db.commitContractToDb first.1 first.2 = .ok next :=
          commit_contract_ok_iff.mpr ⟨unknown first List.mem_cons_self, rfl⟩
        have rest : ∃ after, next.commitContracts rest = .ok after := by
          apply (induction distinct.2).mpr
          intro entry member
          exact (unchanged entry member).trans (unknown entry (List.mem_cons_of_mem _ member))
        obtain ⟨after, later⟩ := rest
        exact ⟨after, commit_contracts_cons_iff.mpr ⟨next, now, later⟩⟩

theorem commit_registrations_spec (distinct : (deployments.map Prod.fst).Nodup)
    (committed : db.commitRegistrations thread deployments = .ok after) :
    (∀ entry ∈ deployments, ∃ contract, db.hashesToContracts.find entry.2 = some contract ∧
        after.addressesToContracts entry.1 = some contract) ∧
      (∀ addr, addr ∉ deployments.map Prod.fst →
        after.addressesToContracts addr = db.addressesToContracts addr) ∧
      after = { db with
                addressesToContracts := after.addressesToContracts
                persistence := after.persistence } := by
  induction deployments generalizing db with
  | nil =>
      cases committed
      exact ⟨fun entry member => absurd member List.not_mem_nil, fun _ _ => rfl, rfl⟩
  | cons first rest induction =>
      rw [List.map_cons, List.nodup_cons] at distinct
      obtain ⟨middle, now, later⟩ := commit_registrations_cons_iff.mp committed
      obtain ⟨contract, known, _, rfl⟩ := commit_registration_ok_iff.mp now
      obtain ⟨inside, outside, frame⟩ := induction distinct.2 later
      refine ⟨?_, ?_, frame⟩
      · intro entry member
        rcases List.mem_cons.mp member with rfl | tail
        · refine ⟨contract, known, ?_⟩
          rw [outside entry.1 distinct.1]
          exact Function.update_self _ _ _
        · exact inside entry tail
      · intro addr stranger
        rw [List.map_cons, List.mem_cons, not_or] at stranger
        rw [outside addr stranger.2]
        exact Function.update_of_ne stranger.1 _ _

/-- Deployments are bound exactly when their scripts are known and their
addresses free. -/
theorem commit_registrations_returns_iff (distinct : (deployments.map Prod.fst).Nodup) :
    (∃ after, db.commitRegistrations thread deployments = .ok after) ↔
      ∀ entry ∈ deployments, db.addressesToContracts entry.1 = none ∧
        db.hashesToContracts.find entry.2 ≠ none := by
  induction deployments generalizing db with
  | nil => exact ⟨fun _ entry member => absurd member List.not_mem_nil, fun _ => ⟨db, rfl⟩⟩
  | cons first rest induction =>
      rw [List.map_cons, List.nodup_cons] at distinct
      have unchanged (bound : Option MeteredContract) : ∀ entry ∈ rest,
          Function.update db.addressesToContracts first.1 bound entry.1 =
            db.addressesToContracts entry.1 := by
        intro entry member
        have apart : entry.1 ≠ first.1 := by
          intro same
          exact distinct.1 (same ▸ List.mem_map_of_mem member)
        exact Function.update_of_ne apart _ _
      constructor
      · rintro ⟨after, committed⟩ entry member
        obtain ⟨middle, now, later⟩ := commit_registrations_cons_iff.mp committed
        obtain ⟨contract, known, free, rfl⟩ := commit_registration_ok_iff.mp now
        rcases List.mem_cons.mp member with rfl | tail
        · exact ⟨free, known ▸ Option.some_ne_none contract⟩
        · have rest := (induction distinct.2).mp ⟨after, later⟩ entry tail
          rw [← unchanged (some contract) entry tail]
          exact rest
      · intro bindable
        obtain ⟨free, known⟩ := bindable first List.mem_cons_self
        obtain ⟨contract, known⟩ := Option.ne_none_iff_exists'.mp known
        let next : ContractDB :=
          { db with
            addressesToContracts :=
              Function.update db.addressesToContracts first.1 (some contract)
            persistence := db.persistence.logDeploy thread first.1 first.2 }
        have now : db.commitRegistration thread first.1 first.2 = .ok next :=
          commit_registration_ok_iff.mpr ⟨contract, known, free, rfl⟩
        have rest : ∃ after, next.commitRegistrations thread rest = .ok after := by
          apply (induction distinct.2).mpr
          intro entry member
          obtain ⟨free, known⟩ := bindable entry (List.mem_cons_of_mem _ member)
          exact ⟨(unchanged (some contract) entry member).trans free, known⟩
        obtain ⟨after, later⟩ := rest
        exact ⟨after, commit_registrations_cons_iff.mpr ⟨next, now, later⟩⟩

/-! ## The commit -/

def script (h : Hash) (db : ContractDB) : Option MeteredContract :=
  (db.uncommittedContracts.newContracts.find h).or (db.hashesToContracts.find h)

structure Committed (db after : ContractDB) : Prop where
  scripts : ∀ h, after.hashesToContracts.find h = db.script h
  bound : ∀ addr h, db.uncommittedContracts.newDeployments.find addr = some h →
    db.script h ≠ none ∧ after.addressesToContracts addr = db.script h
  kept : ∀ addr, db.uncommittedContracts.newDeployments.find addr = none →
    after.addressesToContracts addr = db.addressesToContracts addr
  cleared : after.uncommittedContracts = .empty

theorem commit_ok_iff :
    db.commit thread timestamp = .ok after ↔ ∃ created registered,
      db.commitContracts db.uncommittedContracts.newContracts.entries = .ok created ∧
      created.commitRegistrations thread db.uncommittedContracts.newDeployments.entries =
        .ok registered ∧
      after = { registered with
                uncommittedContracts := .empty
                hasUncommittedModifications := false
                persistence := registered.persistence.write timestamp } := by
  unfold commit
  constructor
  · intro committed
    obtain ⟨created, first, rest⟩ := bind_ok_iff.mp committed
    obtain ⟨registered, second, same⟩ := bind_ok_iff.mp rest
    cases same
    exact ⟨created, registered, first, second, rfl⟩
  · rintro ⟨created, registered, first, second, rfl⟩
    exact bind_ok_iff.mpr ⟨created, first, bind_ok_iff.mpr ⟨registered, second, rfl⟩⟩

theorem entered_script {created : ContractDB}
    (first : db.commitContracts db.uncommittedContracts.newContracts.entries = .ok created)
    (h : Hash) : created.hashesToContracts.find h = db.script h := by
  obtain ⟨inside, outside, _⟩ := commit_contracts_spec (SortedMap.keys_nodup _) first
  unfold script
  cases made : db.uncommittedContracts.newContracts.find h with
  | none =>
      have stranger : h ∉ db.uncommittedContracts.newContracts.keys := fun member =>
        SortedMap.mem_keys_iff.mp member made
      rw [outside h stranger, Option.none_or]
  | some contract =>
      rw [inside (h, contract) (SortedMap.mem_entries_iff.mpr made), Option.some_or]

theorem commit_spec (committed : db.commit thread timestamp = .ok after) : Committed db after := by
  obtain ⟨created, registered, first, second, rfl⟩ := commit_ok_iff.mp committed
  obtain ⟨_, _, frame⟩ := commit_contracts_spec (SortedMap.keys_nodup _) first
  obtain ⟨inside, outside, hashes⟩ := commit_registrations_spec (SortedMap.keys_nodup _) second
  refine ⟨?_, ?_, ?_, rfl⟩
  · intro h
    rw [hashes]
    exact entered_script first h
  · intro addr h deployed
    obtain ⟨contract, known, bound⟩ := inside (addr, h) (SortedMap.mem_entries_iff.mpr deployed)
    rw [entered_script first h] at known
    exact ⟨known ▸ Option.some_ne_none contract, bound.trans known.symm⟩
  · intro addr absent
    have stranger : addr ∉ db.uncommittedContracts.newDeployments.keys := fun member =>
      SortedMap.mem_keys_iff.mp member absent
    have same := congrArg ContractDB.addressesToContracts frame
    rw [← congrFun same addr]
    exact outside addr stranger

/-- The commit returns exactly when the scripts are new, the addresses free and
the deployed scripts known. -/
theorem commit_returns_iff :
    (∃ after, db.commit thread timestamp = .ok after) ↔
      (∀ h, db.uncommittedContracts.newContracts.find h ≠ none →
        db.hashesToContracts.find h = none) ∧
      ∀ addr h, db.uncommittedContracts.newDeployments.find addr = some h →
        db.addressesToContracts addr = none ∧ db.script h ≠ none := by
  constructor
  · rintro ⟨after, committed⟩
    obtain ⟨created, registered, first, second, _⟩ := commit_ok_iff.mp committed
    have unknown := (commit_contracts_returns_iff (SortedMap.keys_nodup _)).mp ⟨created, first⟩
    obtain ⟨_, _, frame⟩ := commit_contracts_spec (SortedMap.keys_nodup _) first
    have bindable :=
      (commit_registrations_returns_iff (SortedMap.keys_nodup _)).mp ⟨registered, second⟩
    constructor
    · intro h made
      obtain ⟨contract, made⟩ := Option.ne_none_iff_exists'.mp made
      exact unknown (h, contract) (SortedMap.mem_entries_iff.mpr made)
    · intro addr h deployed
      obtain ⟨free, known⟩ := bindable (addr, h) (SortedMap.mem_entries_iff.mpr deployed)
      have same := congrArg ContractDB.addressesToContracts frame
      rw [congrFun same addr] at free
      exact ⟨free, entered_script first h ▸ known⟩
  · rintro ⟨unknown, bindable⟩
    have creates : ∃ created,
        db.commitContracts db.uncommittedContracts.newContracts.entries = .ok created := by
      apply (commit_contracts_returns_iff (SortedMap.keys_nodup _)).mpr
      intro entry member
      apply unknown
      rw [SortedMap.mem_entries_iff.mp member]
      exact Option.some_ne_none entry.2
    obtain ⟨created, first⟩ := creates
    obtain ⟨_, _, frame⟩ := commit_contracts_spec (SortedMap.keys_nodup _) first
    have same := congrArg ContractDB.addressesToContracts frame
    have registers : ∃ registered,
        created.commitRegistrations thread db.uncommittedContracts.newDeployments.entries =
          .ok registered := by
      apply (commit_registrations_returns_iff (SortedMap.keys_nodup _)).mpr
      intro entry member
      obtain ⟨free, known⟩ := bindable entry.1 entry.2 (SortedMap.mem_entries_iff.mp member)
      rw [congrFun same entry.1]
      exact ⟨free, entered_script first entry.2 ▸ known⟩
    obtain ⟨registered, second⟩ := registers
    exact ⟨_, commit_ok_iff.mpr ⟨created, registered, first, second, rfl⟩⟩

/-- Neither the flag of pending modifications nor what is logged matters to a commit. -/
theorem commit_alike {other : ContractDB} (same : other.snapshot = db.snapshot)
    (pending : other.uncommittedContracts = db.uncommittedContracts)
    (committed : db.commit thread timestamp = .ok after) (otherThread : Fin tlcacheSize)
    (otherTimestamp : UInt32) :
    ∃ again, other.commit otherThread otherTimestamp = .ok again ∧
      again.snapshot = after.snapshot := by
  have hashes : other.hashesToContracts = db.hashesToContracts := by
    have shown := congrArg ContractDB.hashesToContracts same
    exact shown
  have addresses : other.addressesToContracts = db.addressesToContracts := by
    have shown := congrArg ContractDB.addressesToContracts same
    exact shown
  have scripts (h : Hash) : other.script h = db.script h := by
    rw [script, script, pending, hashes]
  obtain ⟨unknown, bindable⟩ := commit_returns_iff.mp ⟨after, committed⟩
  have returns : ∃ again, other.commit otherThread otherTimestamp = .ok again := by
    apply commit_returns_iff.mpr
    simp only [pending, hashes, addresses, scripts]
    exact ⟨unknown, bindable⟩
  obtain ⟨again, returned⟩ := returns
  have left := commit_spec committed
  have right := commit_spec returned
  have entered : again.hashesToContracts = after.hashesToContracts := by
    apply SortedMap.find_injective
    intro h
    rw [right.scripts, left.scripts, scripts]
  have registered : again.addressesToContracts = after.addressesToContracts := by
    funext addr
    cases deployed : db.uncommittedContracts.newDeployments.find addr with
    | none =>
        rw [left.kept addr deployed, right.kept addr (by rw [pending, deployed]), addresses]
    | some h =>
        rw [(left.bound addr h deployed).2, (right.bound addr h (by rw [pending, deployed])).2,
          scripts]
  refine ⟨again, returned, ?_⟩
  simp only [snapshot, entered, registered]

end Commit

end ContractDB

end Scs
