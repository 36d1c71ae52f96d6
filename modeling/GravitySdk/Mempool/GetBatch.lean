/- Pulling a batch of transactions for consensus.
   digest: Mempool::get_batch_inner of aptos-core/mempool/src/core_mempool:
   the pool's candidates, filtered by the excluded summaries, taken while
   their serialized bytes fit max_bytes, the count tested only after each
   push. The result is the longest prefix within the byte budget cut to
   max(max_txns, 1) transactions, so max_txns = 0 still lets one through. -/

import GravitySdk.Mempool.Types
import GravitySdk.Lib.Checked

set_option autoImplicit false
set_option relaxedAutoImplicit false

namespace GravitySdk.CoreMempool

open GravitySdk.Lib

/-- The `for txn in best_txns` loop of `get_batch_inner`: `total_bytes +
txn_bytes` on u64 (`none` is the panic of its overflow), the byte check
before the push and the count check after it. -/
def collect (maxTxns maxBytes : Nat) (totalBytes : Nat) (transactions : List VerifiedTxn) :
    List VerifiedTxn → Option (List VerifiedTxn)
  | [] => some transactions
  | txn :: rest => do
      let totalWith ← Checked.add UInt64.size totalBytes txn.rawTxnBytesLen
      if maxBytes < totalWith then some transactions
      else
        let pushed := transactions ++ [txn]
        if maxTxns ≤ pushed.length then some pushed
        else collect maxTxns maxBytes totalWith pushed rest

/-- The filter `get_batch_inner` hands to the pool: a candidate whose summary
is excluded is refused. -/
def excludeFilter (excludeTransactions : List TransactionSummary) (key : Nat × Nat × TxnHash) : Bool :=
  !decide (⟨key.1, key.2.1, key.2.2⟩ ∈ excludeTransactions)

/-- `Mempool::get_batch_inner`, with the excluded transactions given by their
summaries (the keys of `exclude_transactions`). -/
def getBatchInner (pool : TxPool) (maxTxns maxBytes : Nat) (excludeTransactions : List TransactionSummary) :
    Option (List VerifiedTxn) :=
  collect maxTxns maxBytes 0 [] (pool.bestTxns (excludeFilter excludeTransactions) maxTxns maxBytes)

/-! ### The longest prefix within a byte budget -/

/-- The bytes of some transactions, added up without bound. -/
def bytesOf (txns : List VerifiedTxn) : Nat := (txns.map VerifiedTxn.rawTxnBytesLen).sum

@[simp] theorem bytesOf_nil : bytesOf [] = 0 := rfl

theorem getBatchInner_ignores_zero_max_txns {pool : TxPool} {maxBytes : Nat}
    {excludeTransactions : List TransactionSummary} {txn : VerifiedTxn} {rest : List VerifiedTxn}
    (candidates : pool.bestTxns (excludeFilter excludeTransactions) 0 maxBytes = txn :: rest)
    (fits : txn.rawTxnBytesLen ≤ maxBytes) (bounded : maxBytes < UInt64.size) :
    getBatchInner pool 0 maxBytes excludeTransactions = some [txn] := by
  have added : Checked.add UInt64.size 0 txn.rawTxnBytesLen = some txn.rawTxnBytesLen :=
    Checked.add_eq_some.mpr ⟨by omega, by omega⟩
  simp [getBatchInner, candidates, collect, added, Nat.not_lt.mpr fits]

/-- A pool that ignores its limit and offers one transaction of 100 bytes: a
batch asked for with `max_txns = 0` and a budget of 1000 bytes holds it. -/
theorem getBatchInner_zero_max_txns_one_txn :
    (⟨fun _ _ _ => [⟨1, 0, 7, 100⟩]⟩ : TxPool).bestTxns (excludeFilter []) 0 1000 = [⟨1, 0, 7, 100⟩] ∧
      (100 ≤ 1000 ∧ 1000 < UInt64.size) ∧
      getBatchInner ⟨fun _ _ _ => [⟨1, 0, 7, 100⟩]⟩ 0 1000 [] = some [⟨1, 0, 7, 100⟩] :=
  ⟨rfl, by decide, getBatchInner_ignores_zero_max_txns rfl (by decide) (by decide)⟩

end GravitySdk.CoreMempool
