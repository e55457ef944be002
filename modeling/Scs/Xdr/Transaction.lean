import Mathlib.Data.Nat.Notation

/-!
# Blocks of transactions (`xdr/transaction.x`, `xdr/block.x`)
-/

namespace Scs

set_option autoImplicit false

inductive TransactionStatus where
  | success
  | failure
  deriving DecidableEq, Repr

/-- A transaction with the nondeterministic results to execute it with. -/
structure TxSetEntry (SignedTransaction NondeterministicResults : Type*) where
  tx : SignedTransaction
  nondeterministicResults : List NondeterministicResults

structure Block (SignedTransaction NondeterministicResults : Type*) where
  transactions : List (TxSetEntry SignedTransaction NondeterministicResults)

end Scs
