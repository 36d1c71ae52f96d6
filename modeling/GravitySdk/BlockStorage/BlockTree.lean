/- The block tree of consensus.
   digest: Blocks with their child links, the ordered and commit roots, the
   highest certified block, the certificates, and the bounded buffer of pruned
   blocks, as block_tree.rs keeps them; insertion of blocks and certificates,
   the read-only search for the blocks to prune, the removal of pruned blocks
   past the buffer's bound, and the commit callback.  A panic of the source is
   `none`, an error it returns is `Except.error`. -/

import GravitySdk.Consensus.Types
import GravitySdk.Lib.KeyMap
import GravitySdk.Lib.StackSearch

set_option autoImplicit false
set_option relaxedAutoImplicit false

namespace GravitySdk.BlockStorage

open GravitySdk.Consensus GravitySdk.Lib GravitySdk.Lib.StackSearch

/-- `PipelinedBlock` as the block tree reads it: the consensus block, whether it
is a nil block, a digest of its compute result, and its block number. -/
structure PipelinedBlock where
  block : Block
  isNilBlock : Bool
  computeResult : HashValue
  blockNumber : Option Nat
  deriving DecidableEq, Repr

namespace PipelinedBlock

def id (b : PipelinedBlock) : HashValue := b.block.id

def parentId (b : PipelinedBlock) : HashValue := b.block.parentId

def round (b : PipelinedBlock) : Nat := b.block.round

def epoch (b : PipelinedBlock) : Nat := b.block.epoch

end PipelinedBlock

/-- The errors that the block tree returns. -/
inductive TreeError where
  /-- "Parent block {} not found". -/
  | parentBlockNotFound (id : HashValue)
  /-- "Block {} not found". -/
  | blockNotFound (id : HashValue)
  /-- "Block info from QC and executed LI need to match". -/
  | blockInfoMismatch
  deriving DecidableEq, Repr

/-- `WrappedLedgerInfo::create_merged_with_executed_state`: the executed ledger
info with the vote data of the ordering one, when the two commit infos agree on
what ordering fixes. -/
def WrappedLedgerInfo.createMergedWithExecutedState (matchOrderedOnly : BlockInfo → BlockInfo → Bool)
    (w : WrappedLedgerInfo) (executedLedgerInfo : LedgerInfoWithSignatures) :
    Except TreeError WrappedLedgerInfo :=
  if matchOrderedOnly w.commitInfo executedLedgerInfo.ledgerInfo.commitInfo then
    .ok ⟨w.voteData, executedLedgerInfo⟩
  else .error .blockInfoMismatch

/-- `LinkableBlock`: a block with the ids of its children, a hash set, listed
here in the order they were added. -/
structure LinkableBlock where
  executedBlock : PipelinedBlock
  children : List HashValue
  deriving DecidableEq, Repr

/-- The order in which the children's `HashSet` of a block iterates: some order
of the children, which the hasher's state fixes and which may differ from block
to block. -/
structure ChildrenOrder where
  iter : LinkableBlock → List HashValue
  perm : ∀ lb, (iter lb).Perm lb.children

/-- Iteration in the order the children were added. -/
def ChildrenOrder.insertion : ChildrenOrder := ⟨LinkableBlock.children, fun _ => .refl _⟩

namespace LinkableBlock

/-- `LinkableBlock::new`. -/
def new (block : PipelinedBlock) : LinkableBlock := ⟨block, []⟩

def id (lb : LinkableBlock) : HashValue := lb.executedBlock.id

/-- `LinkableBlock::add_child`, which panics on a child already recorded. -/
def addChild (lb : LinkableBlock) (childId : HashValue) : Option LinkableBlock :=
  if childId ∈ lb.children then none else some { lb with children := lb.children ++ [childId] }

end LinkableBlock

/-- `BlockTree`, without the highest timeout certificate, which no modelled
operation reads. -/
structure BlockTree where
  idToBlock : KeyMap HashValue LinkableBlock
  orderedRootId : HashValue
  commitRootId : HashValue
  highestCertifiedBlockId : HashValue
  headBlockId : HashValue
  safeBlockId : HashValue
  finalizedBlockId : HashValue
  highestQuorumCert : QuorumCert
  highestOrderedCert : WrappedLedgerInfo
  highestCommitCert : WrappedLedgerInfo
  idToQuorumCert : KeyMap HashValue QuorumCert
  prunedBlockIds : List HashValue
  maxPrunedBlocksInMem : Nat

namespace BlockTree

/-- `BlockTree::new`, which asserts that the root is the block of the ordered
certificate. -/
def new (root : PipelinedBlock) (rootQuorumCert : QuorumCert)
    (rootOrderedCert rootCommitCert : WrappedLedgerInfo) (maxPrunedBlocksInMem : Nat) :
    Option BlockTree :=
  if root.id = rootOrderedCert.commitInfo.id then
    some { idToBlock := KeyMap.empty.insert root.id (.new root)
           orderedRootId := root.id
           commitRootId := root.id
           highestCertifiedBlockId := root.id
           headBlockId := root.id
           safeBlockId := root.id
           finalizedBlockId := root.id
           highestQuorumCert := rootQuorumCert
           highestOrderedCert := rootOrderedCert
           highestCommitCert := rootCommitCert
           idToQuorumCert := KeyMap.empty.insert rootQuorumCert.certifiedBlock.id rootQuorumCert
           prunedBlockIds := []
           maxPrunedBlocksInMem := maxPrunedBlocksInMem }
  else none

def getLinkableBlock (t : BlockTree) (blockId : HashValue) : Option LinkableBlock :=
  t.idToBlock.get blockId

/-- `linkable_root`: the commit root, which pruning starts from. -/
def linkableRoot (t : BlockTree) : Option LinkableBlock := t.getLinkableBlock t.commitRootId

def removeBlock (t : BlockTree) (blockId : HashValue) : BlockTree :=
  { t with idToBlock := t.idToBlock.retain (fun k => k != blockId)
           idToQuorumCert := t.idToQuorumCert.retain (fun k => k != blockId) }

def blockExists (t : BlockTree) (blockId : HashValue) : Bool := (t.getLinkableBlock blockId).isSome

def getBlock (t : BlockTree) (blockId : HashValue) : Option PipelinedBlock :=
  (t.getLinkableBlock blockId).map (·.executedBlock)

/-- `ordered_root`, which panics ("Root must exist") when the block is gone. -/
def orderedRoot (t : BlockTree) : Option PipelinedBlock := t.getBlock t.orderedRootId

/-- `commit_root`, which panics ("Commit root must exist") when the block is gone. -/
def commitRoot (t : BlockTree) : Option PipelinedBlock := t.getBlock t.commitRootId

/-- `highest_certified_block`, which panics when the block is gone. -/
def highestCertifiedBlock (t : BlockTree) : Option PipelinedBlock :=
  t.getBlock t.highestCertifiedBlockId

/-- The first step of `insert_block`: a block that is not nil becomes the head,
whether or not its insertion succeeds. -/
def setHead (t : BlockTree) (block : PipelinedBlock) : BlockTree :=
  if !block.isNilBlock then { t with headBlockId := block.id } else t

/-- The link to the parent in `insert_block`: the parent records the child, or
a missing parent is an error unless it is the genesis id. -/
def linkToParent (genesisBlockId : HashValue) (t : BlockTree) (block : PipelinedBlock) :
    Option (Except TreeError BlockTree) :=
  match t.getLinkableBlock block.parentId with
  | some parentBlock =>
      (parentBlock.addChild block.id).map fun p =>
        .ok { t with idToBlock := t.idToBlock.insert block.parentId p }
  | none =>
      if block.parentId ≠ genesisBlockId then some (.error (.parentBlockNotFound block.parentId))
      else some (.ok t)

/-- `BlockTree::insert_block`.  A block already present is returned as it is,
after the check that the two compute results agree. -/
def insertBlock (genesisBlockId : HashValue) (t : BlockTree) (block : PipelinedBlock) :
    Option (BlockTree × Except TreeError PipelinedBlock) :=
  let headed := t.setHead block
  match headed.getBlock block.id with
  | some existingBlock =>
      if existingBlock.computeResult = block.computeResult then some (headed, .ok existingBlock)
      else none
  | none =>
      match linkToParent genesisBlockId headed block with
      | none => none
      | some (.error e) => some (headed, .error e)
      | some (.ok linked) =>
          -- the source asserts that the id was not stored meanwhile
          if linked.blockExists block.id then none
          else some ({ linked with idToBlock := linked.idToBlock.insert block.id (.new block) },
            .ok block)

/-- The raise of the highest certified block in `insert_quorum_cert`. -/
def certify (t : BlockTree) (block : PipelinedBlock) (qc : QuorumCert) : BlockTree :=
  { t with highestCertifiedBlockId := block.id
           safeBlockId := if !block.isNilBlock then block.id else t.safeBlockId
           highestQuorumCert := qc }

/-- `id_to_quorum_cert.entry(block_id).or_insert_with(..)`. -/
def recordQuorumCert (t : BlockTree) (blockId : HashValue) (qc : QuorumCert) : BlockTree :=
  match t.idToQuorumCert.get blockId with
  | some _ => t
  | none => { t with idToQuorumCert := t.idToQuorumCert.insert blockId qc }

/-- `BlockTree::insert_quorum_cert`.  The quadratic `precondition!` on the
stored certificates is a static annotation that does not run. -/
def insertQuorumCert (t : BlockTree) (qc : QuorumCert) : Option (Except TreeError BlockTree) :=
  let blockId := qc.certifiedBlock.id
  match t.getBlock blockId with
  | none => some (.error (.blockNotFound blockId))
  | some block =>
      match t.highestCertifiedBlock with
      | none => none
      | some highest =>
          let certified := if block.round > highest.round then t.certify block qc else t
          let recorded := certified.recordQuorumCert blockId qc
          if recorded.highestOrderedCert.commitInfo.round < qc.commitInfo.round then
            some (.ok { recorded with highestOrderedCert := qc.intoWrappedLedgerInfo })
          else some (.ok recorded)

/-- `BlockTree::insert_ordered_cert`. -/
def insertOrderedCert (t : BlockTree) (orderedCert : WrappedLedgerInfo) : BlockTree :=
  if orderedCert.commitInfo.round > t.highestOrderedCert.commitInfo.round then
    { t with highestOrderedCert := orderedCert }
  else t

/-- What the pruning search pushes when it pops a block: its children other
than the new root, in the order the set iterates, each looked up ("Child must
exist in the tree"). -/
def pruneSuccessors (t : BlockTree) (order : ChildrenOrder) (nextRootId : HashValue)
    (lb : LinkableBlock) : Option (List LinkableBlock) :=
  ((order.iter lb).filter (fun c => c != nextRootId)).mapM t.getLinkableBlock

/-- `BlockTree::find_blocks_to_prune`, with the guards against a stale request:
nothing for the commit root itself, for a block not in the tree, or for one not
above the commit root's round.  The search pops each block of a tree once, so
the number of stored blocks is fuel enough for it. -/
def findBlocksToPrune (t : BlockTree) (order : ChildrenOrder) (nextRootId : HashValue) :
    Option (List (Nat × HashValue)) :=
  if nextRootId = t.commitRootId then some []
  else
    match t.getBlock nextRootId with
    | none => some []
    | some nextRoot =>
        match t.commitRoot with
        | none => none
        | some commitRoot =>
            if nextRoot.round ≤ commitRoot.round then some []
            else
              match t.linkableRoot with
              | none => none
              | some root =>
                  (drain (t.pruneSuccessors order nextRootId) t.idToBlock.size [root]).map
                    (List.map fun lb => (lb.executedBlock.epoch, lb.id))

/-- `BlockTree::update_ordered_root`, which asserts that the block exists. -/
def updateOrderedRoot (t : BlockTree) (rootId : HashValue) : Option BlockTree :=
  if t.blockExists rootId then some { t with orderedRootId := rootId } else none

/-- `BlockTree::update_commit_and_finalized_root`, which asserts that the block
exists. -/
def updateCommitAndFinalizedRoot (t : BlockTree) (rootId : HashValue) : Option BlockTree :=
  match t.getBlock rootId with
  | none => none
  | some block =>
      some { t with finalizedBlockId := if !block.isNilBlock then rootId else t.finalizedBlockId
                    commitRootId := rootId }

/-- `BlockTree::process_pruned_blocks`: the pruned ids join the back of the
buffer, and the oldest ones past its bound are removed from the tree. -/
def processPrunedBlocks (t : BlockTree) (newlyPrunedBlocks : List (Nat × HashValue)) : BlockTree :=
  let pruned := t.prunedBlockIds ++ newlyPrunedBlocks.map Prod.snd
  if pruned.length > t.maxPrunedBlocksInMem then
    let numBlocksToRemove := pruned.length - t.maxPrunedBlocksInMem
    (pruned.take numBlocksToRemove).foldl removeBlock
      { t with prunedBlockIds := pruned.drop numBlocksToRemove }
  else { t with prunedBlockIds := pruned }

/-- `BlockTree::update_highest_commit_cert`: a higher commit certificate moves
the commit root to the block it commits. -/
def updateHighestCommitCert (t : BlockTree) (newCommitCert : WrappedLedgerInfo) :
    Option BlockTree :=
  if newCommitCert.commitInfo.round > t.highestCommitCert.commitInfo.round then
    updateCommitAndFinalizedRoot { t with highestCommitCert := newCommitCert }
      newCommitCert.commitInfo.id
  else some t

/-- `BlockTree::commit_callback` (the storage it is handed is not used): a
callback at or below the commit root's round is stale and skipped; otherwise the
blocks off the committed block's subtree are pruned and the commit proof raises
the commit certificate. -/
def commitCallback (matchOrderedOnly : BlockInfo → BlockInfo → Bool) (order : ChildrenOrder)
    (t : BlockTree) (blocksToCommit : List PipelinedBlock) (finalityProof : WrappedLedgerInfo)
    (commitDecision : LedgerInfoWithSignatures) : Option BlockTree :=
  match blocksToCommit.getLast?, t.commitRoot with
  | some blockToCommit, some commitRoot =>
      if blockToCommit.round ≤ commitRoot.round then some t
      else
        match WrappedLedgerInfo.createMergedWithExecutedState matchOrderedOnly finalityProof
            commitDecision with
        | .error _ => none
        | .ok commitProof =>
            match t.findBlocksToPrune order blockToCommit.id with
            | none => none
            | some idsToRemove => (t.processPrunedBlocks idsToRemove).updateHighestCommitCert commitProof
  | _, _ => none

section Effects

/-! What each operation does to the stored blocks and the other fields. -/

theorem setHead_eq (t : BlockTree) (block : PipelinedBlock) :
    t.setHead block = { t with headBlockId := if !block.isNilBlock then block.id else t.headBlockId } := by
  unfold setHead
  split <;> simp_all

@[simp] theorem getLinkableBlock_removeBlock (t : BlockTree) (x k : HashValue) :
    (t.removeBlock x).getLinkableBlock k = if k = x then none else t.getLinkableBlock k := by
  by_cases h : k = x <;> simp [removeBlock, getLinkableBlock, h]

theorem foldl_removeBlock_getLinkableBlock (l : List HashValue) (t : BlockTree) (k : HashValue) :
    (l.foldl removeBlock t).getLinkableBlock k = if k ∈ l then none else t.getLinkableBlock k := by
  induction l generalizing t with
  | nil => simp
  | cons x l ih =>
      rw [List.foldl_cons, ih]
      by_cases hkl : k ∈ l
      · simp [hkl]
      · by_cases hkx : k = x <;> simp [hkl, hkx]

theorem foldl_removeBlock_preserves {β : Type} (f : BlockTree → β)
    (hf : ∀ t x, f (t.removeBlock x) = f t) (l : List HashValue) (t : BlockTree) :
    f (l.foldl removeBlock t) = f t := by
  induction l generalizing t with
  | nil => rfl
  | cons x l ih => rw [List.foldl_cons, ih, hf]

/-- The pruned buffer once a batch has joined it. -/
def queuedPruned (t : BlockTree) (newlyPrunedBlocks : List (Nat × HashValue)) : List HashValue :=
  t.prunedBlockIds ++ newlyPrunedBlocks.map Prod.snd

/-- How many of the oldest pruned ids a batch pushes out of the buffer. -/
def overflow (t : BlockTree) (newlyPrunedBlocks : List (Nat × HashValue)) : Nat :=
  (t.queuedPruned newlyPrunedBlocks).length - t.maxPrunedBlocksInMem

theorem processPrunedBlocks_eq (t : BlockTree) (newlyPrunedBlocks : List (Nat × HashValue)) :
    t.processPrunedBlocks newlyPrunedBlocks =
      ((t.queuedPruned newlyPrunedBlocks).take (t.overflow newlyPrunedBlocks)).foldl removeBlock
        { t with prunedBlockIds :=
            (t.queuedPruned newlyPrunedBlocks).drop (t.overflow newlyPrunedBlocks) } := by
  simp only [processPrunedBlocks]
  split
  · rfl
  · have none : t.overflow newlyPrunedBlocks = 0 := by
      unfold overflow queuedPruned
      omega
    rw [none]
    rfl

end Effects

end BlockTree

/-- The operations of the block tree that change it, with their arguments. -/
inductive Call where
  | insertBlock (block : PipelinedBlock)
  | insertQuorumCert (qc : QuorumCert)
  | insertOrderedCert (orderedCert : WrappedLedgerInfo)
  | updateOrderedRoot (rootId : HashValue)
  | commitCallback (blocksToCommit : List PipelinedBlock) (finalityProof : WrappedLedgerInfo)
      (commitDecision : LedgerInfoWithSignatures)
  | processPrunedBlocks (newlyPrunedBlocks : List (Nat × HashValue))

/-- What an operation returns. -/
inductive Reply where
  | unit
  | block (b : PipelinedBlock)
  | error (e : TreeError)
  deriving DecidableEq

/-- One operation on the tree; `none` where the source panics.  A failed
certificate insertion leaves the tree as it was. -/
def BlockTree.step (matchOrderedOnly : BlockInfo → BlockInfo → Bool) (order : ChildrenOrder)
    (genesisBlockId : HashValue) (t : BlockTree) : Call → Option (BlockTree × Reply)
  | .insertBlock block =>
      (t.insertBlock genesisBlockId block).map fun p =>
        (p.1, match p.2 with
          | .ok b => .block b
          | .error e => .error e)
  | .insertQuorumCert qc =>
      (t.insertQuorumCert qc).map fun r =>
        match r with
        | .ok t' => (t', .unit)
        | .error e => (t, .error e)
  | .insertOrderedCert orderedCert => some (t.insertOrderedCert orderedCert, .unit)
  | .updateOrderedRoot rootId => (t.updateOrderedRoot rootId).map (·, .unit)
  | .commitCallback blocksToCommit finalityProof commitDecision =>
      (t.commitCallback matchOrderedOnly order blocksToCommit finalityProof commitDecision).map (·, .unit)
  | .processPrunedBlocks newlyPrunedBlocks => some (t.processPrunedBlocks newlyPrunedBlocks, .unit)

end GravitySdk.BlockStorage
