/- The block store's hand-over of ordered blocks to execution.
   digest: path_from_root_to_block as a climb through the parents,
   init_block_number, and send_for_execution with its live loop (one
   finalize_order per block that has a proof of its own) and its recovery loop
   (set_ordered_blocks, get_executed_res and set_commit_blocks per block), then
   recover_blocks over the quorum certificates of the tree.  The execution
   client records what it is handed; the block buffer manager answers each
   call as any function of the calls before it.  A panic is `none`. -/

import GravitySdk.BlockStorage.BlockTree
import GravitySdk.BlockBuffer.Types
import GravitySdk.Lib.Walk

set_option autoImplicit false
set_option relaxedAutoImplicit false

namespace GravitySdk.BlockStorage

open GravitySdk.Consensus GravitySdk.Lib GravitySdk.Lib.Walk

namespace BlockTree

/-- `BlockTree::path_from_root_to_block`: climb from `blockId` through the
parents while the rounds stay above `rootRound`; the blocks passed, oldest
first, when the climb stops at `rootId`, and `none` when it meets a missing
block or stops elsewhere.  A climb meets each stored block once at most, so the
stored blocks bound it; the source would loop for ever only where the parents
go round a cycle above `rootRound`, and there this gives `none`. -/
def pathFromRootToBlock (t : BlockTree) (blockId rootId : HashValue) (rootRound : Nat) :
    Option (List PipelinedBlock) :=
  match climb t.getBlock PipelinedBlock.parentId (fun b => decide (b.round ≤ rootRound))
      (t.idToBlock.size + 1) blockId [] with
  | none => none
  | some (cur, res) => if cur ≠ rootId then none else some res.reverse

/-- `BlockTree::path_from_ordered_root`; the outer `none` is the panic of
`ordered_root()`. -/
def pathFromOrderedRoot (t : BlockTree) (blockId : HashValue) :
    Option (Option (List PipelinedBlock)) :=
  t.orderedRoot.map fun orderedRoot =>
    t.pathFromRootToBlock blockId t.orderedRootId orderedRoot.round

/-- `BlockTree::get_quorum_cert_for_block`. -/
def getQuorumCertForBlock (t : BlockTree) (blockId : HashValue) : Option QuorumCert :=
  t.idToQuorumCert.get blockId

/-- `BlockTree::get_all_quorum_certs_with_commit_info`: the certificates whose
commit info is not empty, in the order of the map. -/
def getAllQuorumCertsWithCommitInfo (t : BlockTree) : List QuorumCert :=
  (t.idToQuorumCert.entries.map Prod.snd).filter fun qc => qc.commitInfo != BlockInfo.empty

/-- `Block::set_block_number` on the tree's copy of a block.  The number is a
`OnceCell`: a block that has one keeps it. -/
def setBlockNumber (t : BlockTree) (blockId : HashValue) (blockNumber : Nat) : BlockTree :=
  match t.getLinkableBlock blockId with
  | some lb =>
      if lb.executedBlock.blockNumber.isSome then t
      else
        let numbered := { lb.executedBlock with blockNumber := some blockNumber }
        { t with idToBlock := t.idToBlock.insert blockId { lb with executedBlock := numbered } }
  | none => t

/-- `path_from_root_to_block` returns a path exactly when the climb from
`blockId` through the parents stops at `rootId`, and the path is the blocks the
climb passes, oldest first: the stored blocks are fuel enough. -/
theorem pathFromRootToBlock_eq_some_iff {t : BlockTree} {blockId rootId : HashValue} {rootRound : Nat}
    {path : List PipelinedBlock} :
    t.pathFromRootToBlock blockId rootId rootRound = some path ↔
      Climbs t.getBlock PipelinedBlock.parentId (fun b => decide (b.round ≤ rootRound)) blockId
        path.reverse rootId := by
  constructor
  · intro h
    unfold pathFromRootToBlock at h
    split at h
    · cases h
    · rename_i cur res climbed
      split_ifs at h with atRoot
      obtain rfl : cur = rootId := not_not.mp atRoot
      obtain ⟨bs, rfl, climbs, -⟩ := climbs_of_climb climbed
      cases h
      simpa using climbs
  · intro climbs
    -- the climb meets distinct stored blocks, one key more than it passes
    have bounded : path.reverse.length < t.idToBlock.size + 1 := by
      have met := KeyMap.length_le_size climbs.keys_nodup fun k hk => by
        simpa [getBlock, getLinkableBlock] using climbs.get_isSome k hk
      simp only [keys, List.length_cons, List.length_map] at met
      omega
    have climbed := climb_of_climbs climbs [] bounded
    simp [pathFromRootToBlock, climbed]

end BlockTree

/-- The latest ledger info of the ledger metadata DB, as `recover_blocks` reads
it: the signed ledger info, and the block number of its commit info's
`epoch_block_info` when it carries one. -/
structure LatestLedgerInfo where
  ledgerInfo : LedgerInfoWithSignatures
  epochBlockNumber : Option Nat
  deriving DecidableEq, Repr

/-- What the block store reads from its storage while it sends blocks for
execution. -/
structure Storage where
  /-- `consensus_db().get_block(epoch, id)`: the number of the stored block,
  `none` when there is no such block or the read fails. -/
  consensusDbBlockNumber : Nat → HashValue → Option (Option Nat)
  /-- `ledger_db.metadata_db().get_block_hash(block_number)`. -/
  blockHash : Nat → Option HashValue
  /-- `ledger_db.metadata_db().get_latest_ledger_info()`. -/
  latestLedgerInfo : Option LatestLedgerInfo
  /-- Whether a block's randomness is known, in memory or once
  `try_set_randomness_from_db` has looked. -/
  hasRandomness : HashValue → Bool

/-- `BlockStore`, with the fields that sending blocks for execution reads. -/
structure BlockStore where
  inner : BlockTree
  storage : Storage
  isValidator : Bool
  requireBlockRandomness : Bool

/-- A call the block store makes on the execution side, in the order made:
`finalize_order` of the execution client with the blocks and the proof its
commit callback will use, and the calls of the recovery on the block buffer
manager. -/
inductive Effect where
  | finalizeOrder (blocks : List PipelinedBlock) (proof : WrappedLedgerInfo)
  | setOrderedBlocks (parentId : HashValue) (block : BlockBuffer.ExternalBlock) (round : Nat)
  | getExecutedRes (blockId : HashValue) (blockNumber epoch : Nat)
  | setCommitBlocks (blocks : List BlockBuffer.BlockHashRef) (epoch : Nat)
  deriving DecidableEq, Repr

/-- The execution side as the recovery sees it: the transactions of a block
from the payload manager (`get_transactions`, retried until it succeeds), and
the answer of the block buffer manager to each call, given the calls made
before it.  `get_executed_res` answers with the hash of the execution output. -/
structure ExecutionSide where
  getTransactions : PipelinedBlock → Nat
  setOrderedBlocks : List Effect → HashValue → BlockBuffer.ExternalBlock → Nat →
    Except BlockBuffer.BbmError Unit
  getExecutedRes : List Effect → HashValue → Nat → Nat → Except BlockBuffer.BbmError HashValue
  setCommitBlocks : List Effect → List BlockBuffer.BlockHashRef → Nat →
    Except BlockBuffer.BbmError Unit

/-- The errors `send_for_execution` returns, one per error site. -/
inductive SendError where
  /-- "Committed block id not found". -/
  | committedBlockIdNotFound
  /-- "Committed block round lower than root: block_to_commit_round={},
  ordered_root_round={}". -/
  | committedBlockRoundLowerThanRoot (blockToCommitRound orderedRootRound : Nat)
  /-- "Block number not found for last recovery block". -/
  | lastRecoveryBlockNumberNotFound
  /-- "Block number not found for block {}". -/
  | blockNumberNotFound (blockId : HashValue)
  /-- "Block number {} is too large to convert to i64". -/
  | blockNumberTooLarge (blockNumber : Nat)
  /-- "Randomness is required but not found in block {}, block_number={}". -/
  | randomnessNotFound (blockId : HashValue) (blockNumber : Nat)
  /-- "Failed to set ordered blocks during recovery". -/
  | setOrderedBlocksFailed (e : BlockBuffer.BbmError)
  /-- "Failed to get executed result for block {} during recovery". -/
  | getExecutedResFailed (blockId : HashValue) (e : BlockBuffer.BbmError)
  /-- "Failed to set commit blocks during recovery". -/
  | setCommitBlocksFailed (e : BlockBuffer.BbmError)
  deriving DecidableEq, Repr

/-- `i64::MAX`: the recovery hands over block numbers up to it. -/
def i64Max : Nat := 2 ^ 63 - 1

namespace BlockStore

/-- `BlockStore::init_block_number`: each block is numbered one above its
parent, whose number is read from the tree, or from ConsensusDB when the parent
is not in the tree ("Cannot find the parent_block id" panics, and so does the
`unwrap` of a parent without a number); a block that has a number must already
have this one (`assert_eq!`).  Returns the tree and the blocks with their
numbers.  The numbers written to ConsensusDB by `save_tree` are not modelled. -/
def initBlockNumber (storage : Storage) :
    BlockTree → List PipelinedBlock → Option (BlockTree × List PipelinedBlock)
  | t, [] => some (t, [])
  | t, pBlock :: rest =>
      let parentNumber : Option Nat :=
        match t.getBlock pBlock.parentId with
        | some parentBlock => parentBlock.blockNumber
        | none => (storage.consensusDbBlockNumber pBlock.epoch pBlock.parentId).bind id
      match parentNumber with
      | none => none
      | some parentNumber =>
          let blockNumber := parentNumber + 1
          match pBlock.blockNumber with
          | some cur =>
              if cur = blockNumber then
                (initBlockNumber storage t rest).map fun r => (r.1, pBlock :: r.2)
              else none
          | none =>
              (initBlockNumber storage (t.setBlockNumber pBlock.id blockNumber) rest).map
                fun r => (r.1, { pBlock with blockNumber := some blockNumber } :: r.2)

/-- The proof a block of the live path is sent with: the finality proof for
the block to commit, otherwise the certificate of the next block on the path
when its commit info names this block; without one the block waits for the
next batch. -/
def proofFor (t : BlockTree) (finalityProof : WrappedLedgerInfo) (blockIdToCommit : HashValue)
    (block : PipelinedBlock) (rest : List PipelinedBlock) : Option WrappedLedgerInfo :=
  if block.id = blockIdToCommit then some finalityProof
  else
    match rest.head?.bind fun next => t.getQuorumCertForBlock next.id with
    | some qc => if qc.commitInfo.id = block.id then some qc.intoWrappedLedgerInfo else none
    | none => none

/-- The one-by-one loop of the live path of `send_for_execution`: a block with
a proof is sent with the path from the ordered root up to it, which then
becomes the ordered root; `finalize_order` is taken to succeed (its `expect`). -/
def sendOneByOne (finalityProof : WrappedLedgerInfo) (blockIdToCommit : HashValue) :
    BlockTree → List PipelinedBlock → List Effect × Option BlockTree
  | t, [] => ([], some t)
  | t, block :: rest =>
      match proofFor t finalityProof blockIdToCommit block rest with
      | none => sendOneByOne finalityProof blockIdToCommit t rest
      | some proof =>
          match t.pathFromOrderedRoot block.id with
          | none => ([], none)
          | some path =>
              let path := path.getD []
              if path.isEmpty then sendOneByOne finalityProof blockIdToCommit t rest
              else
                match t.updateOrderedRoot block.id with
                | none => ([.finalizeOrder path proof], none)
                | some t' =>
                    let r := sendOneByOne finalityProof blockIdToCommit (t'.insertOrderedCert proof) rest
                    (.finalizeOrder path proof :: r.1, r.2)

/-- The `ExternalBlock` the recovery hands over for a block. -/
def externalBlock (side : ExecutionSide) (pBlock : PipelinedBlock) (blockNumber : Nat) :
    BlockBuffer.ExternalBlock :=
  ⟨pBlock.id, blockNumber, pBlock.block.blockData.timestampUsecs, pBlock.epoch,
    side.getTransactions pBlock⟩

/-- The loop of the recovery branch of `send_for_execution` over the blocks
kept by the epoch-change filter.  Each block is handed to `set_ordered_blocks`,
its result is awaited with `get_executed_res` and joins `commit_blocks`; at a
block whose number has a stored hash, that hash must be the result's
(`assert_eq!`) and `commit_blocks` goes to `set_commit_blocks`.  `past` are the
calls made before. -/
def recoverOneByOne (side : ExecutionSide) (storage : Storage) (requireBlockRandomness : Bool) :
    List Effect → List BlockBuffer.BlockHashRef → List PipelinedBlock →
      List Effect × Option (Except SendError Unit)
  | _, _, [] => ([], some (.ok ()))
  | past, commitBlocks, pBlock :: rest =>
      match pBlock.blockNumber with
      | none => ([], some (.error (.blockNumberNotFound pBlock.id)))
      | some blockNumber =>
          if i64Max < blockNumber then ([], some (.error (.blockNumberTooLarge blockNumber)))
          else if requireBlockRandomness && pBlock.epoch != 1 && !storage.hasRandomness pBlock.id then
            ([], some (.error (.randomnessNotFound pBlock.id blockNumber)))
          else
            let block := externalBlock side pBlock blockNumber
            let ordered := Effect.setOrderedBlocks pBlock.parentId block pBlock.round
            match side.setOrderedBlocks past pBlock.parentId block pBlock.round with
            | .error e => ([ordered], some (.error (.setOrderedBlocksFailed e)))
            | .ok () =>
                let executed := Effect.getExecutedRes pBlock.id blockNumber pBlock.epoch
                match side.getExecutedRes (past ++ [ordered]) pBlock.id blockNumber pBlock.epoch with
                | .error e => ([ordered, executed], some (.error (.getExecutedResFailed pBlock.id e)))
                | .ok data =>
                    let commitBlocks := commitBlocks ++ [⟨pBlock.id, blockNumber, some data⟩]
                    match storage.blockHash blockNumber with
                    | none =>
                        let r := recoverOneByOne side storage requireBlockRandomness
                          (past ++ [ordered, executed]) commitBlocks rest
                        (ordered :: executed :: r.1, r.2)
                    | some blockHash =>
                        if blockHash ≠ data then ([ordered, executed], none)
                        else
                          let committed := Effect.setCommitBlocks commitBlocks pBlock.epoch
                          match side.setCommitBlocks (past ++ [ordered, executed]) commitBlocks
                              pBlock.epoch with
                          | .error e =>
                              ([ordered, executed, committed], some (.error (.setCommitBlocksFailed e)))
                          | .ok () =>
                              let r := recoverOneByOne side storage requireBlockRandomness
                                (past ++ [ordered, executed, committed]) [] rest
                              (ordered :: executed :: committed :: r.1, r.2)

/-- The blocks the recovery keeps: with an epoch-change block number, those not
numbered above it, and nothing (the batch is skipped) when none is left. -/
def keepBeforeEpochChange (recoverEpochChangeBlockNumber : Option Nat)
    (blocksToCommit : List PipelinedBlock) : Option (List PipelinedBlock) :=
  match recoverEpochChangeBlockNumber with
  | some limit =>
      let filtered := blocksToCommit.filter fun b => !(b.blockNumber.any fun bn => bn > limit)
      if filtered.isEmpty then none else some filtered
  | none => some blocksToCommit

/-- The recovery branch of `send_for_execution`, once the path has its numbers:
the epoch-change filter, the deferral of a batch whose last block has no stored
hash, the loop, then the commit callback, the new ordered root and the ordered
certificate. -/
def recoverBatch (matchOrderedOnly : BlockInfo → BlockInfo → Bool) (order : ChildrenOrder)
    (side : ExecutionSide)
    (s : BlockStore) (t : BlockTree) (past : List Effect) (finalityProof : WrappedLedgerInfo)
    (blockToCommit : PipelinedBlock) (blocksToCommit : List PipelinedBlock)
    (recoverEpochChangeBlockNumber : Option Nat) :
    List Effect × Option (BlockTree × Except SendError Unit) :=
  match keepBeforeEpochChange recoverEpochChangeBlockNumber blocksToCommit with
  | none => ([], some (t, .ok ()))
  | some blocksToCommit =>
      match blocksToCommit.getLast?.bind PipelinedBlock.blockNumber with
      | none => ([], some (t, .error .lastRecoveryBlockNumberNotFound))
      | some lastBlockNumber =>
          if (s.storage.blockHash lastBlockNumber).isNone then ([], some (t, .ok ()))
          else
            let r := recoverOneByOne side s.storage s.requireBlockRandomness past [] blocksToCommit
            match r.2 with
            | none => (r.1, none)
            | some (.error e) => (r.1, some (t, .error e))
            | some (.ok ()) =>
                match t.commitCallback matchOrderedOnly order blocksToCommit finalityProof
                    finalityProof.signedLedgerInfo with
                | none => (r.1, none)
                | some t =>
                    match t.updateOrderedRoot blockToCommit.id with
                    | none => (r.1, none)
                    | some t => (r.1, some (t.insertOrderedCert finalityProof, .ok ()))

/-- `BlockStore::send_for_execution` (the pending-block garbage collection and
the counters are not modelled).  `batchCommitSize` is `BATCH_COMMIT_SIZE`, zero
when unset. -/
def sendForExecution (matchOrderedOnly : BlockInfo → BlockInfo → Bool) (order : ChildrenOrder)
    (side : ExecutionSide)
    (batchCommitSize : Nat) (s : BlockStore) (past : List Effect) (finalityProof : WrappedLedgerInfo)
    (recovery : Bool) (recoverEpochChangeBlockNumber : Option Nat) :
    List Effect × Option (BlockTree × Except SendError Unit) :=
  let t := s.inner
  if !s.isValidator && !recovery then ([], some (t, .ok ()))
  else
    let blockIdToCommit := finalityProof.commitInfo.id
    match t.getBlock blockIdToCommit with
    | none => ([], some (t, .error .committedBlockIdNotFound))
    | some blockToCommit =>
        match t.orderedRoot, t.commitRoot with
        | some orderedRoot, some _ =>
            if blockToCommit.round ≤ orderedRoot.round then
              ([], some (t, .error (.committedBlockRoundLowerThanRoot blockToCommit.round
                orderedRoot.round)))
            else
              match t.pathFromOrderedRoot blockIdToCommit with
              | none => ([], none)
              | some path =>
                  let blocksToCommit := path.getD []
                  if blocksToCommit.isEmpty then ([], some (t, .ok ()))
                  else
                    match initBlockNumber s.storage t blocksToCommit with
                    | none => ([], none)
                    | some (t, blocksToCommit) =>
                        if recovery then
                          recoverBatch matchOrderedOnly order side s t past finalityProof blockToCommit
                            blocksToCommit recoverEpochChangeBlockNumber
                        else if 0 < batchCommitSize ∧ blocksToCommit.length ≤ batchCommitSize then
                          ([], some (t, .ok ()))
                        else
                          let r := sendOneByOne finalityProof blockIdToCommit t blocksToCommit
                          (r.1, r.2.map fun t => (t, .ok ()))
        | _, _ => ([], none)

/-- The loop of `recover_blocks` over the certificates, in the order the sort
left them: a certificate at or below the commit root's round, or with no
latest ledger info, or of another epoch, or above the latest ledger info's
round, is skipped; the others are sent for execution in recovery mode, and the
first error ends the loop (it is logged). -/
def recoverCerts (matchOrderedOnly : BlockInfo → BlockInfo → Bool) (order : ChildrenOrder)
    (side : ExecutionSide)
    (batchCommitSize : Nat) (epochChangeBlockNumber : Option Nat) :
    BlockStore → List Effect → List QuorumCert →
      List Effect × Option (BlockStore × Except SendError Unit)
  | s, _, [] => ([], some (s, .ok ()))
  | s, past, qc :: certs =>
      let commitRound := qc.commitInfo.round
      match s.inner.commitRoot with
      | none => ([], none)
      | some commitRoot =>
          if commitRound ≤ commitRoot.round then
            recoverCerts matchOrderedOnly order side batchCommitSize epochChangeBlockNumber s past certs
          else
            match s.storage.latestLedgerInfo with
            | none =>
                recoverCerts matchOrderedOnly order side batchCommitSize epochChangeBlockNumber s past certs
            | some lastLi =>
                if lastLi.ledgerInfo.ledgerInfo.commitInfo.epoch ≠ qc.commitInfo.epoch ∨
                    lastLi.ledgerInfo.ledgerInfo.commitInfo.round < commitRound then
                  recoverCerts matchOrderedOnly order side batchCommitSize epochChangeBlockNumber s past certs
                else
                  let r := sendForExecution matchOrderedOnly order side batchCommitSize s past
                    qc.intoWrappedLedgerInfo true epochChangeBlockNumber
                  match r.2 with
                  | none => (r.1, none)
                  | some (t, .error e) => (r.1, some ({ s with inner := t }, .error e))
                  | some (t, .ok ()) =>
                      let r' := recoverCerts matchOrderedOnly order side batchCommitSize
                        epochChangeBlockNumber { s with inner := t } (past ++ r.1) certs
                      (r.1 ++ r'.1, r'.2)

/-- What `sort_unstable_by_key` may return: the items in some order sorted by
the key, those of one key in an order it does not promise. -/
structure UnstableSort (α : Type) (key : α → Nat) where
  sort : List α → List α
  perm : ∀ l, (sort l).Perm l
  sorted : ∀ l, (sort l).Pairwise fun a b => key a ≤ key b

/-- `BlockStore::recover_blocks`: the certificates with a commit info, sorted by
the round they commit, replayed in recovery mode up to the latest ledger info
and the epoch-change block it names. -/
def recoverBlocks (matchOrderedOnly : BlockInfo → BlockInfo → Bool) (order : ChildrenOrder)
    (sortByRound : UnstableSort QuorumCert fun qc => qc.commitInfo.round) (side : ExecutionSide)
    (batchCommitSize : Nat) (s : BlockStore) :
    List Effect × Option (BlockStore × Except SendError Unit) :=
  let certs := s.inner.getAllQuorumCertsWithCommitInfo
  let epochChangeBlockNumber := s.storage.latestLedgerInfo.bind (·.epochBlockNumber)
  let certs := sortByRound.sort certs
  recoverCerts matchOrderedOnly order side batchCommitSize epochChangeBlockNumber s [] certs

end BlockStore

end GravitySdk.BlockStorage
