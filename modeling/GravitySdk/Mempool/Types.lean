/- The transactions the mempool reads from the execution layer's pool.
   digest: The pool's VerifiedTxn as aptos-core/mempool/src/core_mempool
   reads it, the (sender, sequence number, hash) triple its filters test,
   TransactionSummary, and the best_txns entry point of the TxPool trait of
   crates/block-buffer-manager. -/

import Mathlib

set_option autoImplicit false
set_option relaxedAutoImplicit false

namespace GravitySdk.CoreMempool

/-- A 32-byte transaction hash, `TxnHash`. -/
abbrev TxnHash := Nat

/-- A transaction of the execution layer's pool (`gaptos::api_types::VerifiedTxn`)
as the mempool reads it: its sender's address read as a big-endian number, its
sequence number and committed hash, and `raw_txn_bytes_len` of the
`SignedTransaction` the mempool builds from it, which the external serializer
computes from the transaction's bytes. -/
structure VerifiedTxn where
  sender : Nat
  sequenceNumber : Nat
  committedHash : TxnHash
  rawTxnBytesLen : Nat
  deriving DecidableEq, Repr

/-- The `(sender, sequence_number, committed_hash)` triple a pool hands to a
filter. -/
def VerifiedTxn.key (txn : VerifiedTxn) : Nat × Nat × TxnHash :=
  (txn.sender, txn.sequenceNumber, txn.committedHash)

/-- `TransactionSummary`. -/
structure TransactionSummary where
  sender : Nat
  sequenceNumber : Nat
  hash : TxnHash
  deriving DecidableEq, Repr

/-- `TxPool::best_txns`: the candidates for a block, given the caller's filter,
its limit on their number and its hint on their bytes. -/
structure TxPool where
  bestTxns : (Nat × Nat × TxnHash → Bool) → Nat → Nat → List VerifiedTxn

end GravitySdk.CoreMempool
