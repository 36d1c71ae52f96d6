/- The proof queue of the quorum store.
   digest: The proofs of store waiting to be pulled into blocks, per author in
   BatchSortKey order, with the batches' transaction summaries, the number of
   queued proofs each summary occurs in, the expiry heap and four counters;
   push, add_batch_summaries, mark_committed and handle_updated_block_timestamp
   as the source runs them, u64 arithmetic with its overflow checks. -/

import Mathlib
import GravitySdk.QuorumStore.Types
import GravitySdk.Lib.SortedStore
import GravitySdk.Lib.Checked

set_option autoImplicit false
set_option relaxedAutoImplicit false

namespace GravitySdk.QuorumStore

open GravitySdk.Lib
open GravitySdk.Consensus

/-!
The queue also keeps the insertion time of each proof, read by metrics only,
and left out with the metrics.  The garbage collection of batch summaries runs
under `sample!`, at most once in 500 ms and against the wall clock: whether it
runs, and the time it reads, are arguments of the calls that reach it.  The
`HashMap`s are maps; the order in which a `HashSet` is iterated is an argument
of the call that iterates it.
-/

/-- `BatchId`'s order: by nonce, then by id. -/
def BatchId.rank (b : BatchId) : Lex (Nat × Nat) := toLex (b.nonce, b.id)

theorem BatchId.rank_injective : Function.Injective BatchId.rank := by
  intro a b same
  cases a
  cases b
  simp_all [BatchId.rank]

instance : LinearOrder BatchId := LinearOrder.lift' BatchId.rank BatchId.rank_injective

/-- `ProofOfStore`: a batch info with the signatures of a quorum, which nothing
here reads. -/
structure ProofOfStore where
  info : BatchInfo
  deriving DecidableEq, Repr

/-- The order the occurrence map keeps its summaries in. -/
def TxnSummaryWithExpiration.rank (s : TxnSummaryWithExpiration) : Lex (Nat × Lex (Nat × Lex (Nat × Nat))) :=
  toLex (s.sender, toLex (s.sequenceNumber, toLex (s.expirationTimestampSecs, s.hash)))

theorem TxnSummaryWithExpiration.rank_injective : Function.Injective TxnSummaryWithExpiration.rank := by
  intro a b same
  cases a
  cases b
  simp_all [TxnSummaryWithExpiration.rank]

instance : LinearOrder TxnSummaryWithExpiration :=
  LinearOrder.lift' TxnSummaryWithExpiration.rank TxnSummaryWithExpiration.rank_injective

namespace Utils

/-- `utils::BatchKey`: a batch by its author and batch id. -/
structure BatchKey where
  author : Author
  batchId : BatchId
  deriving DecidableEq, Repr

def BatchKey.fromInfo (info : BatchInfo) : BatchKey := ⟨info.author, info.batchId⟩

def BatchKey.rank (k : BatchKey) : Lex (Nat × BatchId) := toLex (k.author, k.batchId)

theorem BatchKey.rank_injective : Function.Injective BatchKey.rank := by
  intro a b same
  cases a
  cases b
  simp_all [BatchKey.rank]

instance : LinearOrder BatchKey := LinearOrder.lift' BatchKey.rank BatchKey.rank_injective

/-- `BatchSortKey`: a batch key with its gas bucket. -/
structure BatchSortKey where
  batchKey : BatchKey
  gasBucketStart : Nat
  deriving DecidableEq, Repr

def BatchSortKey.fromInfo (info : BatchInfo) : BatchSortKey := ⟨BatchKey.fromInfo info, info.gasBucketStart⟩

def BatchSortKey.author (k : BatchSortKey) : Author := k.batchKey.author

/-- `BatchSortKey`'s order: gas bucket ascending, then batch id descending.  The
source compares no more, and the keys of one author's map differ in no more;
the author orders the rest. -/
def BatchSortKey.rank (k : BatchSortKey) : Lex (Nat × Lex (BatchIdᵒᵈ × Nat)) :=
  toLex (k.gasBucketStart, toLex (OrderDual.toDual k.batchKey.batchId, k.batchKey.author))

theorem BatchSortKey.rank_injective : Function.Injective BatchSortKey.rank := by
  intro a b same
  obtain ⟨⟨author, batchId⟩, gas⟩ := a
  obtain ⟨⟨author', batchId'⟩, gas'⟩ := b
  simp_all [BatchSortKey.rank]

instance : LinearOrder BatchSortKey := LinearOrder.lift' BatchSortKey.rank BatchSortKey.rank_injective

/-- `ProofQueue`. -/
structure ProofQueue where
  myPeerId : Author
  authorToBatches : SortedStore Author (SortedStore BatchSortKey BatchInfo)
  batchToProof : SortedStore BatchKey (Option ProofOfStore)
  txnSummaryNumOccurrences : SortedStore TxnSummaryWithExpiration Nat
  batchSummaries : SortedStore BatchKey (List TxnSummaryWithExpiration × Nat × Bool)
  expirations : TimeExpirations BatchSortKey
  latestBlockTimestamp : Nat
  remainingTxnsWithDuplicates : Nat
  remainingProofs : Nat
  remainingLocalTxns : Nat
  remainingLocalProofs : Nat

/-- `*txn_summary_num_occurrences.entry(s).or_insert(0) += 1` for each summary
of a batch, in order. -/
def incOccurrences (occurrences : SortedStore TxnSummaryWithExpiration Nat) :
    List TxnSummaryWithExpiration → Option (SortedStore TxnSummaryWithExpiration Nat)
  | [] => some occurrences
  | s :: rest => do
      let count ← Checked.add UInt64.size ((occurrences.get s).getD 0) 1
      incOccurrences (occurrences.insert s count) rest

/-- For each summary of a batch, in order: its count, if it has one, goes down
by one, and the summary leaves the map at zero. -/
def decOccurrences (occurrences : SortedStore TxnSummaryWithExpiration Nat) :
    List TxnSummaryWithExpiration → Option (SortedStore TxnSummaryWithExpiration Nat)
  | [] => some occurrences
  | s :: rest =>
      match occurrences.get s with
      | none => decOccurrences occurrences rest
      | some count => do
          let count ← Checked.sub count 1
          decOccurrences (if count = 0 then occurrences.erase s else occurrences.insert s count) rest

namespace ProofQueue

def new (myPeerId : Author) : ProofQueue := ⟨myPeerId, .empty, .empty, .empty, .empty, .new, 0, 0, 0, 0, 0⟩

variable (pq : ProofQueue)

/-- The four counters moved by one proof of `author` with `numTxns`
transactions, each by the u64 operation `op`: the local two only for the
queue's own proofs. -/
def moveRemaining (op : Nat → Nat → Option Nat) (author : Author) (numTxns : Nat) : Option ProofQueue := do
  let remainingTxnsWithDuplicates ← op pq.remainingTxnsWithDuplicates numTxns
  let remainingProofs ← op pq.remainingProofs 1
  let pq := { pq with remainingTxnsWithDuplicates := remainingTxnsWithDuplicates, remainingProofs := remainingProofs }
  if author = pq.myPeerId then
    let remainingLocalTxns ← op pq.remainingLocalTxns numTxns
    let remainingLocalProofs ← op pq.remainingLocalProofs 1
    pure { pq with remainingLocalTxns := remainingLocalTxns, remainingLocalProofs := remainingLocalProofs }
  else pure pq

/-- `inc_remaining`. -/
def incRemaining (author : Author) (numTxns : Nat) : Option ProofQueue :=
  pq.moveRemaining (Checked.add UInt64.size) author numTxns

/-- `dec_remaining`: its subtractions panic when they underflow. -/
def decRemaining (author : Author) (numTxns : Nat) : Option ProofQueue :=
  pq.moveRemaining Checked.sub author numTxns

/-- `gc_expired_batch_summaries_without_proofs` at wall-clock time `now`: the
summaries of batches without a proof that have expired go. -/
def gcExpiredBatchSummariesWithoutProofs (now : Nat) : ProofQueue :=
  { pq with batchSummaries := pq.batchSummaries.retainEntries fun _ entry => entry.2.2 || decide (entry.2.1 > now) }

/-- The `sample!` of the garbage collection: `none` when the sampler skips it,
the wall-clock time it reads otherwise. -/
def gcSampled : Option Nat → ProofQueue
  | none => pq
  | some now => pq.gcExpiredBatchSummariesWithoutProofs now

/-- `push`: a proof expired by the latest block timestamp, or of a batch already
known, is rejected; otherwise it is queued under its author, its expiry
recorded, the summaries of its batch counted if they came first, and the
counters raised. -/
def push (proof : ProofOfStore) (gcNow : Option Nat) : Option ProofQueue :=
  if proof.info.expiration ≤ pq.latestBlockTimestamp then some pq
  else if (pq.batchToProof.get (BatchKey.fromInfo proof.info)).isSome then some pq
  else do
    let batchKey := BatchKey.fromInfo proof.info
    let batchSortKey := BatchSortKey.fromInfo proof.info
    let queue := (pq.authorToBatches.get proof.info.author).getD .empty
    let pq := { pq with
      authorToBatches := pq.authorToBatches.insert proof.info.author (queue.insert batchSortKey proof.info)
      expirations := pq.expirations.addItem batchSortKey proof.info.expiration
      batchToProof := pq.batchToProof.insert batchKey (some proof) }
    let pq ← match pq.batchSummaries.get batchKey with
      | some (txnSummaries, expiration, false) => do
          let occurrences ← incOccurrences pq.txnSummaryNumOccurrences txnSummaries
          pure { pq with
            txnSummaryNumOccurrences := occurrences
            batchSummaries := pq.batchSummaries.insert batchKey (txnSummaries, expiration, true) }
      | _ => pure pq
    let pq ← pq.incRemaining proof.info.author proof.info.numTxns
    pure (pq.gcSampled gcNow)

/-- One batch of `add_batch_summaries`: its summaries are counted when its proof
is queued and uncommitted and they were not counted yet, and recorded unless
they were counted. -/
def addBatchSummary (batchInfo : BatchInfo) (txnSummaries : List TxnSummaryWithExpiration) : Option ProofQueue := do
  let batchSortKey := BatchSortKey.fromInfo batchInfo
  let proofExistsInAuthorToBatches :=
    ((pq.authorToBatches.get batchInfo.author).map fun batches => (batches.get batchSortKey).isSome).getD false
  let proofExistsInBatchToProof := ((pq.batchToProof.get batchSortKey.batchKey).map Option.isSome).getD false
  let batchSummaryNotAlreadyAdded := ((pq.batchSummaries.get batchSortKey.batchKey).map fun entry => !entry.2.2).getD true
  let occurrences ←
    if proofExistsInAuthorToBatches && proofExistsInBatchToProof && batchSummaryNotAlreadyAdded then
      incOccurrences pq.txnSummaryNumOccurrences txnSummaries
    else pure pq.txnSummaryNumOccurrences
  let pq := { pq with txnSummaryNumOccurrences := occurrences }
  let entry := (txnSummaries, batchInfo.expiration, proofExistsInAuthorToBatches && proofExistsInBatchToProof)
  if batchSummaryNotAlreadyAdded then
    pure { pq with batchSummaries := pq.batchSummaries.insert batchSortKey.batchKey entry }
  else pure pq

/-- The loop of `add_batch_summaries`. -/
def addBatchSummariesLoop :
    ProofQueue → List (BatchInfo × List TxnSummaryWithExpiration) → Option ProofQueue
  | pq, [] => some pq
  | pq, (batchInfo, txnSummaries) :: rest =>
      (pq.addBatchSummary batchInfo txnSummaries).bind fun pq => addBatchSummariesLoop pq rest

/-- `add_batch_summaries`. -/
def addBatchSummaries (batchSummaries : List (BatchInfo × List TxnSummaryWithExpiration)) (gcNow : Option Nat) :
    Option ProofQueue :=
  (addBatchSummariesLoop pq batchSummaries).map fun pq => pq.gcSampled gcNow

/-- One batch of `mark_committed`: an uncommitted proof of its key leaves the
counters by the batch info given, the key is marked committed, and the
counted summaries of the key are uncounted and dropped. -/
def markCommittedBatch (batch : BatchInfo) : Option ProofQueue := do
  let batchKey := BatchKey.fromInfo batch
  let pq ← match pq.batchToProof.get batchKey with
    | some (some _) => pq.decRemaining batch.author batch.numTxns
    | _ => pure pq
  let pq := { pq with batchToProof := pq.batchToProof.insert batchKey none }
  let occurrences ← match pq.batchSummaries.get batchKey with
    | some (txnSummaries, _, true) => decOccurrences pq.txnSummaryNumOccurrences txnSummaries
    | _ => pure pq.txnSummaryNumOccurrences
  pure { pq with txnSummaryNumOccurrences := occurrences, batchSummaries := pq.batchSummaries.erase batchKey }

/-- `mark_committed`. -/
def markCommitted : ProofQueue → List BatchInfo → Option ProofQueue
  | pq, [] => some pq
  | pq, batch :: rest => (pq.markCommittedBatch batch).bind fun pq => markCommitted pq rest

/-- A queued proof of 5 transactions, then the commit of a batch info of the
same author and batch id that claims 7: `dec_remaining` subtracts the count of
the batch info given, not of the proof queued, and underflows. -/
theorem markCommitted_underflows_on_other_batch_info :
    ((new 0).push ⟨⟨1, ⟨0, 0⟩, 0, 10, 7, 5, 100, 0⟩⟩ none).map (fun pq => pq.remainingTxnsWithDuplicates) =
      some 5 ∧
    (((new 0).push ⟨⟨1, ⟨0, 0⟩, 0, 10, 7, 5, 100, 0⟩⟩ none).bind fun pq =>
      pq.markCommitted [⟨1, ⟨0, 0⟩, 0, 10, 8, 7, 100, 0⟩]).isNone := by
  constructor <;> decide +kernel

/-- One expired key of `handle_updated_block_timestamp`: its batch leaves its
author's queue, which is put back unless empty; an uncommitted proof of it
leaves the counters, with its counted summaries, and the key leaves
`batch_to_proof`.  `none` is a panic: the `expect` of a queued key without a
proof entry, or an underflow, among them that of the metric's
`block_timestamp - batch.expiration()`. -/
def expireBatch (blockTimestamp : Nat) (key : BatchSortKey) : Option ProofQueue :=
  match pq.authorToBatches.get key.author with
  | none => some pq
  | some queue =>
      let removed := { pq with authorToBatches := pq.authorToBatches.erase key.author }
      let expired : Option ProofQueue := match queue.get key with
        | none => some removed
        | some batch => do
            let entry ← removed.batchToProof.get key.batchKey
            let pq ← if entry.isSome then do
                let _ ← Checked.sub blockTimestamp batch.expiration
                let occurrences ← match removed.batchSummaries.get key.batchKey with
                  | some (txnSummaries, _, true) => decOccurrences removed.txnSummaryNumOccurrences txnSummaries
                  | _ => pure removed.txnSummaryNumOccurrences
                let pq := { removed with
                  txnSummaryNumOccurrences := occurrences
                  batchSummaries := removed.batchSummaries.erase key.batchKey }
                pq.decRemaining batch.author batch.numTxns
              else pure removed
            pure { pq with batchToProof := pq.batchToProof.erase key.batchKey }
      let queue := queue.erase key
      expired.map fun pq =>
        if queue.entries.isEmpty then pq
        else { pq with authorToBatches := pq.authorToBatches.insert key.author queue }

/-- The loop of `handle_updated_block_timestamp` over the expired keys. -/
def expireLoop (blockTimestamp : Nat) : ProofQueue → List BatchSortKey → Option ProofQueue
  | pq, [] => some pq
  | pq, key :: rest => (pq.expireBatch blockTimestamp key).bind fun pq => expireLoop blockTimestamp pq rest

/-- `handle_updated_block_timestamp`, the expired keys iterated in the order
`hashOrder` gives them; a decreasing timestamp is the panic of its assertion. -/
def handleUpdatedBlockTimestamp (hashOrder : List BatchSortKey → List BatchSortKey) (blockTimestamp : Nat) :
    Option ProofQueue :=
  if pq.latestBlockTimestamp ≤ blockTimestamp then
    let expired := pq.expirations.expire blockTimestamp
    expireLoop blockTimestamp { pq with latestBlockTimestamp := blockTimestamp, expirations := expired.2 }
      (hashOrder expired.1)
  else none

end ProofQueue

end Utils

end GravitySdk.QuorumStore
