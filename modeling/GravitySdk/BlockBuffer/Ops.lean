/- The block operations of BlockBufferManager, one function each.
   digest: Each async method, with its mutex held for the whole call, becomes a
   pure function of the state machine; a call that would wait for another
   operation returns `none`. -/

import GravitySdk.BlockBuffer.Types

set_option autoImplicit false
set_option relaxedAutoImplicit false

namespace GravitySdk.BlockBuffer

open GravitySdk.Lib

variable {VS : Type}

/-- `usize::MAX`, the bound of a collection loop called with `max_size = None`. -/
def usizeMax : Nat := 2 ^ 64 - 1

namespace BlockStateMachine

/-- `BlockStateMachine::is_suffix_block`. -/
def isSuffixBlock (s : BlockStateMachine VS) (blockNum : Nat) : Bool :=
  match s.epochChangeBlockInfo with
  | some cache => decide (blockNum > cache.epochBlockInfo.blockNumber)
  | none => false

/-- `BlockStateMachine::is_stale_commit_after_epoch_change`. -/
def isStaleCommitAfterEpochChange (s : BlockStateMachine VS) (epoch blockNum : Nat) : Bool :=
  decide (epoch < s.currentEpoch) ||
    match s.epochChangeBlockInfo with
    | some cache => decide (epoch = s.currentEpoch) && decide (blockNum > cache.epochBlockInfo.blockNumber)
    | none => false

/-- The parent id `set_ordered_blocks` records: the id found at `(epoch, n - 1)`,
else at `(epoch - 1, n - 1)`, else the id consensus passed. -/
def actualParentId (s : BlockStateMachine VS) (block : ExternalBlock) (parentId : BlockId) :
    BlockId :=
  match block.blockNumber with
  | 0 => parentId
  | parentBlockNum + 1 =>
      match s.blocks.get ⟨block.epoch, parentBlockNum⟩ with
      | some state => state.getBlockId
      | none =>
          if block.epoch > 0 then
            match s.blocks.get ⟨block.epoch - 1, parentBlockNum⟩ with
            | some state => state.getBlockId
            | none => parentId
          else parentId

/-- `set_ordered_blocks` after `wait_until_ready`. -/
def setOrderedBlocks (s : BlockStateMachine VS) (parentId : BlockId) (block : ExternalBlock)
    (round : Nat) : Except BbmError (BlockStateMachine VS) :=
  if s.epochChangeReady then .error (.orderedEpochChangeWaiting s.latestEpochChangeBlockNumber)
  else if block.epoch < s.currentEpoch then .ok s
  else if block.epoch > s.currentEpoch then
    .error (.orderedFutureEpoch block.blockNumber block.epoch s.currentEpoch)
  else
    let key : BlockKey := ⟨block.epoch, block.blockNumber⟩
    match s.blocks.get key with
    | some _ => .ok s
    | none =>
        .ok { s with blocks := s.blocks.insert key (.ordered block (s.actualParentId block parentId) round) }

/-- The inner loop of `get_ordered_blocks`: collect the `Ordered` blocks at
`(epoch, n), (epoch, n + 1), ...` into `acc`, stopping at the first other key
or once `max_size` blocks are collected (checked after each push). -/
def collectOrdered (blocks : KeyMap BlockKey (BlockState VS)) (epoch maxSize : Nat) (n : Nat)
    (acc : List (ExternalBlock × BlockId)) (fuel : Nat) : List (ExternalBlock × BlockId) :=
  match blocks.get ⟨epoch, n⟩ with
  | some (.ordered block parentId _) =>
      let acc' := acc ++ [(block, parentId)]
      if acc'.length ≥ maxSize then acc'
      else
        match fuel with
        | 0 => acc'
        | fuel + 1 => collectOrdered blocks epoch maxSize (n + 1) acc' fuel
  | _ => acc
termination_by structural fuel

/-- One pass of `get_ordered_blocks` (read only): an error in an epoch change,
`none` when there is nothing to return yet (the call waits and retries). -/
def getOrderedBlocks (s : BlockStateMachine VS) (startNum : Nat) (maxSize : Option Nat)
    (expectedEpoch : Nat) : Option (Except BbmError (List (ExternalBlock × BlockId))) :=
  if s.epochChangeReady || decide (s.currentEpoch ≠ expectedEpoch) then
    some (.error .bufferInEpochChange)
  else
    let limit := maxSize.getD usizeMax
    match collectOrdered s.blocks expectedEpoch limit startNum [] limit with
    | [] => none
    | result => some (.ok result)

/-- One pass of `get_executed_res`.  An `Ordered` suffix block gets the dummy
result of the cached epoch state, stored under the id the caller passed; any
other `Ordered` block makes the call wait. -/
def getExecutedRes (g : Gaptos VS) (s : BlockStateMachine VS) (blockId : BlockId)
    (blockNum epoch : Nat) :
    Option (Except BbmError (StateComputeResult VS × BlockStateMachine VS)) :=
  let key : BlockKey := ⟨epoch, blockNum⟩
  match s.blocks.get key with
  | some (.computed id computeResult) =>
      if id ≠ blockId then some (.error (.executedComputedIdMismatch blockId id))
      else some (.ok (computeResult, s))
  | some (.ordered _ _ _) =>
      -- `is_suffix_block` followed by the `expect` on the cache
      match s.epochChangeBlockInfo with
      | some cache =>
          if blockNum > cache.epochBlockInfo.blockNumber then
            let dummyResult := StateComputeResult.newDummyWithEpochState g cache.epochState
            some (.ok (dummyResult,
              { s with blocks := s.blocks.insert key (.computed blockId dummyResult) }))
          else none
      | none => none
  | some (.committed _ computeResult id _) =>
      if id ≠ blockId then some (.error (.executedCommittedIdMismatch blockId id))
      else some (.ok (computeResult, s))
  | some (.historical id) => some (.error (.executedHistorical id blockNum))
  | none =>
      if epoch < s.currentEpoch then some (.ok (StateComputeResult.newDummy g, s))
      else some (.error (.executedNoOrderedBlock blockId blockNum s.latestEpochChangeBlockNumber))

/-- `calculate_new_epoch_state`: the first `NewEpoch` event, decoded, moves
`next_epoch` and the epoch-change block number; decoding failures change
nothing. -/
def calculateNewEpochState (g : Gaptos VS) (events : List GravityEvent) (blockNum : Nat)
    (s : BlockStateMachine VS) : Except BbmError (Option (EpochState VS) × BlockStateMachine VS) :=
  if events.isEmpty then .ok (none, s)
  else
    match events.find? GravityEvent.isNewEpoch with
    | none => .ok (none, s)
    | some (.newEpoch newEpoch bytes) =>
        match g.decodeValidatorSet bytes with
        | .error failure => .error (.onChainConfig failure)
        | .ok validatorSet =>
            .ok (some ⟨newEpoch, validatorSet⟩,
              { s with latestEpochChangeBlockNumber := blockNum, nextEpoch := some newEpoch })
    | some _ => .error .newEpochEventNotNewEpoch

/-- `handle_epoch_change_suffix_blocks`: cache the epoch-change block and give
every `Ordered` block of the same epoch above it the dummy result. -/
def handleEpochChangeSuffixBlocks (g : Gaptos VS) (s : BlockStateMachine VS)
    (epochChangeBlockNum epoch : Nat) (blockId : BlockId) (blockTimestampUsecs blockRound : Nat)
    (blockHash : HashValue) (epochState : EpochState VS) : BlockStateMachine VS :=
  { s with
    epochChangeBlockInfo := some
      { epochBlockInfo :=
          { blockId := blockId
            blockNumber := epochChangeBlockNum
            epochStartRound := blockRound
            epochStartTimestampUsecs := blockTimestampUsecs
            blockHash := blockHash }
        epochState := epochState }
    blocks := s.blocks.mapWith fun key state =>
      if key.epoch = epoch ∧ key.blockNumber > epochChangeBlockNum ∧ state.isOrdered = true then
        .computed state.getBlockId (StateComputeResult.newDummyWithEpochState g epochState)
      else state }

/-- `set_compute_res` after `wait_until_ready`. -/
def setComputeRes (g : Gaptos VS) (s : BlockStateMachine VS) (blockId : BlockId)
    (blockHash : HashValue) (blockNum epoch : Nat) (events : List GravityEvent) :
    Except BbmError (BlockStateMachine VS) :=
  let key : BlockKey := ⟨epoch, blockNum⟩
  match s.blocks.get key with
  | some (.ordered block _ round) =>
      if block.blockId ≠ blockId then .error (.computeIdMismatch blockId block.blockId)
      else
        match calculateNewEpochState g events blockNum s with
        | .error e => .error e
        | .ok (newEpochState, s1) =>
            let computeResult : StateComputeResult VS :=
              { executionOutput := { data := blockHash, txnNum := block.txnCount, events := events }
                epochState := newEpochState }
            let s2 := { s1 with blocks := s1.blocks.insert key (.computed blockId computeResult) }
            match newEpochState with
            | some epochState =>
                .ok (handleEpochChangeSuffixBlocks g s2 blockNum epoch blockId block.usecs round
                  blockHash epochState)
            | none => .ok s2
  | _ => .error (.computeNoOrderedBlock blockId)

/-- The loop of `set_commit_blocks`.  Entries are rewritten as the loop goes, so
the state it stops in is returned together with the result, an error included;
the result lists the block numbers that were given a persist notifier. -/
def setCommitBlocksLoop (epoch : Nat) :
    BlockStateMachine VS → List BlockHashRef → List Nat →
      BlockStateMachine VS × Except BbmError (List Nat)
  | s, [], notifiers => (s, .ok notifiers)
  | s, r :: rest, notifiers =>
      let key : BlockKey := ⟨epoch, r.num⟩
      let isSuffix := s.isSuffixBlock r.num
      match s.blocks.get key with
      | some (.computed id computeResult) =>
          if id = r.blockId then
            let persistNotifier := computeResult.epochState.isSome && !isSuffix
            let s' := { s with
              blocks := s.blocks.insert key (.committed r.hash computeResult r.blockId persistNotifier) }
            setCommitBlocksLoop epoch s' rest
              (if persistNotifier then notifiers ++ [r.num] else notifiers)
          else (s, .error (.commitComputedIdMismatch r.blockId id r.num))
      | some (.committed _ _ id _) =>
          if !isSuffix && id ≠ r.blockId then (s, .error (.commitCommittedIdMismatch r.blockId id))
          else setCommitBlocksLoop epoch s rest notifiers
      | some (.ordered _ _ _) => (s, .error (.commitMeetsOrdered r.blockId r.num))
      | some (.historical id) =>
          if id ≠ r.blockId then (s, .error (.commitHistoricalIdMismatch r.blockId id r.num))
          else setCommitBlocksLoop epoch s rest notifiers
      | none =>
          if s.isStaleCommitAfterEpochChange epoch r.num then setCommitBlocksLoop epoch s rest notifiers
          else (s, .error (.commitNoBlock r.blockId r.num))

/-- `set_commit_blocks` after `wait_until_ready`. -/
def setCommitBlocks (s : BlockStateMachine VS) (blockIds : List BlockHashRef) (epoch : Nat) :
    BlockStateMachine VS × Except BbmError (List Nat) :=
  setCommitBlocksLoop epoch s blockIds []

/-- The inner loop of `get_committed_blocks`: hand out the `Committed` blocks at
`(epoch, n), (epoch, n + 1), ...`, taking their persist notifiers, and stop at a
suffix block number, at any other key, or after `max_size` blocks. -/
def collectCommitted (s : BlockStateMachine VS) (epoch maxSize : Nat) (n : Nat)
    (acc : List CommittedRef) (fuel : Nat) : BlockStateMachine VS × List CommittedRef :=
  if s.isSuffixBlock n then (s, acc)
  else
    let key : BlockKey := ⟨epoch, n⟩
    match s.blocks.get key with
    | some (.committed hash computeResult id persistNotifier) =>
        let acc' := acc ++ [⟨id, n, hash, persistNotifier⟩]
        let s' := { s with blocks := s.blocks.insert key (.committed hash computeResult id false) }
        if acc'.length ≥ maxSize then (s', acc')
        else
          match fuel with
          | 0 => (s', acc')
          | fuel + 1 => collectCommitted s' epoch maxSize (n + 1) acc' fuel
    | _ => (s, acc)
termination_by structural fuel

/-- One pass of `get_committed_blocks`; `none` when nothing is committed yet. -/
def getCommittedBlocks (s : BlockStateMachine VS) (startNum : Nat) (maxSize : Option Nat)
    (epoch : Nat) : Option (List CommittedRef × BlockStateMachine VS) :=
  let limit := maxSize.getD usizeMax
  match collectCommitted s epoch limit startNum [] limit with
  | (_, []) => none
  | (s', result) => some (result, s')

/-- `set_state`. -/
def setState (s : BlockStateMachine VS) (latestCommitBlockNumber latestFinalizedBlockNumber : Nat) :
    BlockStateMachine VS :=
  { s with latestCommitBlockNumber := latestCommitBlockNumber
           latestFinalizedBlockNumber := latestFinalizedBlockNumber }

/-- `get_epoch_change_block_info`. -/
def getEpochChangeBlockInfo (s : BlockStateMachine VS) (blockNum epoch : Nat) :
    Option EpochBlockInfo :=
  match s.epochChangeBlockInfo with
  | none => none
  | some cache =>
      if blockNum > cache.epochBlockInfo.blockNumber ∧ epoch = s.currentEpoch then
        some cache.epochBlockInfo
      else none

/-- Whether `release_inflight_blocks` has an epoch change to finish. -/
def hasPendingEpochChange (s : BlockStateMachine VS) : Bool :=
  s.latestEpochChangeBlockNumber != 0 || s.nextEpoch.isSome || s.epochChangeBlockInfo.isSome

/-- The state part of `release_inflight_blocks` when an epoch change is pending:
advance the epoch, drop every block above the epoch-change block, clear the cache
and flag the change as ready to consume. -/
def releaseInflight (s : BlockStateMachine VS) : BlockStateMachine VS :=
  { s with
    currentEpoch := s.nextEpoch.getD s.currentEpoch
    nextEpoch := none
    blocks := s.blocks.retain fun key => decide (key.blockNumber ≤ s.latestEpochChangeBlockNumber)
    epochChangeBlockInfo := none
    epochChangeReady := true }

/-- The state part of `consume_epoch_change`. -/
def consumeEpochChange (s : BlockStateMachine VS) : BlockStateMachine VS :=
  { s with latestEpochChangeBlockNumber := 0, epochChangeReady := false }

/-- The reply of `consume_epoch_change`: the new epoch and the epoch-change block
number, with `latest_commit_block_number` standing in for a redundant call. -/
def epochChangeReply (s : BlockStateMachine VS) : Nat × Nat :=
  (s.nextEpoch.getD s.currentEpoch,
    if s.latestEpochChangeBlockNumber = 0 then s.latestCommitBlockNumber
    else s.latestEpochChangeBlockNumber)

/-- `remove_committed_blocks` with the configured `max_block_size`. -/
def removeCommittedBlocks (s : BlockStateMachine VS) (maxBlockSize : Nat) : BlockStateMachine VS :=
  if s.blocks.size < maxBlockSize then s
  else
    { s with blocks := s.blocks.retain fun key => decide (key.blockNumber ≥ s.latestFinalizedBlockNumber) }

end BlockStateMachine

namespace BlockBufferManager

/-- `BlockBufferManager::is_ready`. -/
def isReady (m : BlockBufferManager VS) : Bool := m.bufferState != .uninitialized

/-- `init`: both checks come before the first write. -/
def init (m : BlockBufferManager VS) (latestCommitBlockNumber : Nat)
    (blockNumberToBlockIdWithEpoch : KeyMap Nat (Nat × BlockId)) (initialEpoch : Nat) :
    Except BbmError (BlockBufferManager VS) :=
  let commitBlock : Except BbmError (Option (Nat × BlockId)) :=
    if blockNumberToBlockIdWithEpoch.isEmpty then
      if latestCommitBlockNumber > 0 then .error (.initRequiresNonEmptyMap latestCommitBlockNumber)
      else .ok none
    else
      match blockNumberToBlockIdWithEpoch.get latestCommitBlockNumber with
      | some entry => .ok (some entry)
      | none => .error (.initCommitBlockNotFound latestCommitBlockNumber)
  match commitBlock with
  | .error e => .error e
  | .ok commitBlock =>
      let s := m.blockStateMachine
      let s1 := { s with
        latestCommitBlockNumber := latestCommitBlockNumber
        latestFinalizedBlockNumber := latestCommitBlockNumber
        blockNumberToBlockId := blockNumberToBlockIdWithEpoch.mapVals Prod.snd
        currentEpoch := initialEpoch }
      let s2 := match commitBlock with
        | some (commitBlockEpoch, commitBlockId) =>
            { s1 with
              blocks := s1.blocks.insert ⟨commitBlockEpoch, latestCommitBlockNumber⟩
                (.historical commitBlockId)
              latestEpochChangeBlockNumber := 0 }
        | none => s1
      .ok { blockStateMachine := s2, bufferState := .ready }

/-- `release_inflight_blocks`: nothing happens without a pending epoch change. -/
def releaseInflightBlocks (m : BlockBufferManager VS) : BlockBufferManager VS :=
  if m.blockStateMachine.hasPendingEpochChange then
    { blockStateMachine := m.blockStateMachine.releaseInflight, bufferState := .epochChange }
  else m

/-- `consume_epoch_change`. -/
def consumeEpochChange (m : BlockBufferManager VS) : BlockBufferManager VS × (Nat × Nat) :=
  ({ blockStateMachine := m.blockStateMachine.consumeEpochChange, bufferState := .ready },
    m.blockStateMachine.epochChangeReply)

end BlockBufferManager

end GravitySdk.BlockBuffer
