/- The main loop of the buffer manager.
   digest: BufferManager::start of consensus/src/pipeline/buffer_manager.rs as
   one step per event it selects: ordered blocks pushed into the buffer with the
   commit votes cached for them, the execution and signing roots advanced, an
   execution response that advances its item and may aggregate it, a signing
   response that signs the item and broadcasts its vote, a commit vote or
   decision that may aggregate an item, advance_head popping the buffer up to
   an aggregated item into one persisting request, the persisting phase's
   committed round, the retry of the schedule phase and a reset. -/

import Mathlib
import GravitySdk.Pipeline.Buffer
import GravitySdk.Pipeline.BufferItem

set_option autoImplicit false
set_option relaxedAutoImplicit false

namespace GravitySdk.Pipeline

open GravitySdk.Lib GravitySdk.Consensus

/-!
The loop's channels are its events: each `select!` branch that fires is one
event, handled to completion before the next.  The requests it sends to the
phases and the replies and broadcasts it sends to peers are its outputs; a
request sent again after a delay (`spawn_retry_request`) is the same output.
The interval tick only refreshes metrics and rebroadcasts the votes of signed
items by their age, so it is left out, with the counters, the logs, the
consensus publisher and the count of ongoing tasks.  Executor and signing
errors carry nothing the loop reads.
-/

/-- `CommitMessage`, verified: the signature of a vote is its author's. -/
inductive CommitMessage where
  | vote (vote : CommitVote)
  | decision (commitProof : LedgerInfoWithSignatures)
  | ack
  | nack

/-- The fields of `BufferManager` fixed for its epoch, with the functions of
other crates that the items use. -/
structure Config where
  author : Author
  verifier : ValidatorVerifier
  /-- The order in which `HashMap::into_values` yields the commit votes cached
  for a block. -/
  intoValues : SortedStore Author CommitVote → List CommitVote
  orderVoteEnabled : Bool
  observerEnabled : Bool
  consensusAlphaActive : Nat → Bool
  matchOrderedOnly : BlockInfo → BlockInfo → Bool

/-- The fields of `BufferManager` that its main loop reads and writes: the
caches of early commit messages, the buffer with its execution and signing
roots, the latest ordered round, the end-of-epoch timestamp and the stop flag. -/
structure PipelineState where
  caches : BufferManager
  buffer : Buffer BufferItem
  executionRoot : Cursor
  signingRoot : Cursor
  latestRound : Nat
  endEpochTimestamp : Option Nat
  stop : Bool

/-- What the loop receives, one `select!` branch each. -/
inductive Event where
  | orderedBlocks (orderedBlocks : List Blk) (orderedProof : LedgerInfoWithSignatures)
  | reset (signal : ResetSignal)
  | executionScheduleResponse (blockId : HashValue)
  | executionResponse (blockId : HashValue) (inner : Except Unit (List Blk))
  | executionScheduleRetry
  | signingResponse (signatureResult : Except Unit Signature) (commitLedgerInfo : LedgerInfo)
  | persistingResponse (result : Except Unit Nat)
  | commitMessage (msg : CommitMessage)

/-- What the loop sends. -/
inductive Output where
  | executionRequest (orderedBlocks : List Blk)
  | executionWaitRequest (blockId : HashValue)
  | scheduleRetry
  | signingRequest (orderedLedgerInfo : LedgerInfoWithSignatures) (commitLedgerInfo : LedgerInfo)
  | persistingRequest (blocks : List Blk) (commitLedgerInfo : LedgerInfoWithSignatures)
  | broadcast (vote : CommitVote)
  | ack
  | nack
  | resetAck

/-- `MAX_BACKLOG` of `need_backpressure`. -/
def maxBacklog : Nat := 20

namespace PipelineState

/-- `need_backpressure`; `none` is the panic of the u64 addition. -/
def needBackpressure (s : PipelineState) : Option Bool := do
  let bound ← Checked.add UInt64.size s.caches.highestCommittedRound maxBacklog
  pure (decide (bound < s.latestRound))

section Handlers

variable (cfg : Config)

/-- `process_ordered_blocks`: the execution request, then the ordered item
with the cached votes for its last block added, pushed into the buffer;
`none` is a panic: a batch without blocks or a failed push. -/
def processOrderedBlocks (s : PipelineState) (orderedBlocks : List Blk) (orderedProof : LedgerInfoWithSignatures) :
    Option (PipelineState × List Output) := do
  let item := BufferItem.newOrdered orderedBlocks orderedProof
  let targetBlockId ← item.blockId
  let round := item.commitInfo.round
  let drained := s.caches.drainCachedCommitVotes cfg.intoValues round targetBlockId
  let item := drained.2.foldl (fun item vote => (BufferItem.addSignatureIfMatched cfg.matchOrderedOnly item vote).1) item
  let buffer ← s.buffer.pushBack BufferItem.blockId item
  pure ({ s with caches := drained.1, buffer := buffer }, [.executionRequest orderedBlocks])

/-- `advance_execution_root`: the first ordered item from the root, or from the
head without one, with the root's id to retry when the root did not move. -/
def advanceExecutionRoot (s : PipelineState) : Option (PipelineState × Option HashValue) := do
  let cursor := s.executionRoot
  let root ← s.buffer.findElemFrom (cursor.or s.buffer.head) BufferItem.isOrdered
  pure ({ s with executionRoot := root }, if root.isSome && cursor == root then root else none)

/-- `advance_signing_root`: the first executed item from the root, or from the
head without one, and the signing request for it; sent now or after a delay,
it is the same request. -/
def advanceSigningRoot (s : PipelineState) : Option (PipelineState × List Output) := do
  let cursor := s.signingRoot
  let root ← s.buffer.findElemFrom (cursor.or s.buffer.head) BufferItem.isExecuted
  let s := { s with signingRoot := root }
  if root.isSome then do
    let item ← s.buffer.get root
    let executedItem ← item.unwrapExecutedRef
    pure (s, [.signingRequest executedItem.orderedProof executedItem.partialCommitProof.ledgerInfo])
  else pure (s, [])

/-- The loop of `advance_head`: pop items, gathering their blocks and clearing
a root that names one, up to the item of the target, whose commit proof goes
with the blocks to the persisting phase.  It runs for at most one round per
entry of the map and one more; `none` is a panic: the target not aggregated,
an item without blocks, or the buffer exhausted (`unreachable!`). -/
def advanceHeadLoop (targetBlockId : HashValue) : Nat → PipelineState → List Blk → Option (PipelineState × List Output)
  | 0, _, _ => none
  | fuel + 1, s, blocksToPersist => do
      let popped ← s.buffer.popFront
      let item ← popped.1
      let blocksToPersist := blocksToPersist ++ item.getBlocks
      let itemId ← item.blockId
      let s : PipelineState := { s with
        buffer := popped.2,
        signingRoot := if s.signingRoot = some itemId then none else s.signingRoot,
        executionRoot := if s.executionRoot = some itemId then none else s.executionRoot }
      if itemId = targetBlockId then do
        let aggregatedItem ← item.unwrapAggregated
        let _ ← aggregatedItem.executedBlocks.getLast?
        pure (s, [.persistingRequest blocksToPersist aggregatedItem.commitProof])
      else advanceHeadLoop targetBlockId fuel s blocksToPersist

/-- `advance_head`. -/
def advanceHead (targetBlockId : HashValue) (s : PipelineState) : Option (PipelineState × List Output) :=
  advanceHeadLoop targetBlockId (s.buffer.map.size + 1) s []

/-- The loop of `retry_schedule_phase`: an execution request for the blocks of
each item from the cursor on. -/
def retryLoop (b : Buffer BufferItem) : Nat → Cursor → Option (List Output)
  | _, none => some []
  | 0, some _ => none
  | fuel + 1, some key => do
      let item ← b.get (some key)
      let next ← b.getNext (some key)
      let rest ← retryLoop b fuel next
      pure (.executionRequest item.getBlocks :: rest)

/-- `retry_schedule_phase`, from the execution root. -/
def retrySchedulePhase (s : PipelineState) : Option (List Output) :=
  retryLoop s.buffer (s.buffer.map.size + 1) s.executionRoot

/-- `process_execution_response`: a response for the item of its block id at
or after the execution root advances that item, with a commit proof cached
for its round, and sends the buffer's head up to it once it is aggregated;
`none` is a panic. -/
def processExecutionResponse (s : PipelineState) (blockId : HashValue) (inner : Except Unit (List Blk)) :
    Option (PipelineState × List Output) :=
  let currentCursor := s.buffer.findElemByKey s.executionRoot blockId
  if currentCursor.isNone then some (s, [])
  else
    match inner with
    | .error _ => some (s, [])
    | .ok executedBlocks => do
        -- the `unwrap` of the log line
        let _ ← executedBlocks.getLast?
        let currentItem ← s.buffer.get currentCursor
        let currentId ← currentItem.blockId
        if currentId ≠ blockId then pure (s, [])
        else
          let endEpochTimestamp := recordEndEpochTimestamp s.endEpochTimestamp executedBlocks
          let taken ← s.buffer.take currentCursor
          let round := taken.1.commitInfo.round
          let newItem ← taken.1.advanceToExecutedOrAggregated cfg.consensusAlphaActive cfg.verifier executedBlocks
            endEpochTimestamp cfg.orderVoteEnabled
          let drained ← s.caches.drainPendingCommitProofTill round
          let newItem ← (match drained.2 with
            | some commitProof =>
                if !newItem.isAggregated && commitProof.commitInfo.id = blockId then
                  newItem.tryAdvanceToAggregatedWithLedgerInfo cfg.matchOrderedOnly commitProof
                else pure newItem
            | none => pure newItem)
          let buffer ← taken.2.set currentCursor newItem
          let s := { s with caches := drained.1, buffer := buffer, endEpochTimestamp := endEpochTimestamp }
          if newItem.isAggregated then advanceHead blockId s else pure (s, [])

/-- `process_signing_response`: a signature for the item of its commit info at
or after the signing root signs that item, when it is still executed, and
broadcasts its commit vote. -/
def processSigningResponse (s : PipelineState) (signatureResult : Except Unit Signature)
    (commitLedgerInfo : LedgerInfo) : Option (PipelineState × List Output) :=
  match signatureResult with
  | .error _ => some (s, [])
  | .ok signature =>
      let currentCursor := s.buffer.findElemByKey s.signingRoot commitLedgerInfo.commitInfo.id
      if currentCursor.isNone then some (s, [])
      else do
        let taken ← s.buffer.take currentCursor
        if taken.1.isExecuted then do
          let signedItem ← taken.1.advanceToSigned cfg.author signature
          let signed ← signedItem.unwrapSignedMut
          let buffer ← taken.2.set currentCursor signedItem
          pure ({ s with buffer := buffer }, if cfg.observerEnabled then [] else [.broadcast signed.commitVote])
        else do
          let buffer ← taken.2.set currentCursor taken.1
          pure ({ s with buffer := buffer }, [])

/-- `process_commit_message`, with the block id of an item it aggregated: a
vote joins its item with the votes cached for it and may aggregate it, or is
cached; a decision aggregates its item, or is kept for later. -/
def processCommitMessage (s : PipelineState) : CommitMessage → Option (PipelineState × List Output × Option HashValue)
  | .vote vote =>
      let targetBlockId := vote.commitInfo.id
      let currentCursor := s.buffer.findElemByKey s.buffer.head targetBlockId
      if currentCursor.isSome then do
        let taken ← s.buffer.take currentCursor
        -- `add_signature_if_matched_from_cache`
        let drained := s.caches.drainCachedCommitVotes cfg.intoValues vote.commitInfo.round targetBlockId
        let item := drained.2.foldl
          (fun item vote => (BufferItem.addSignatureIfMatched cfg.matchOrderedOnly item vote).1) taken.1
        let added := BufferItem.addSignatureIfMatched cfg.matchOrderedOnly item vote
        let newItem ← (if added.2 then added.1.tryAdvanceToAggregated cfg.verifier else pure added.1)
        let buffer ← taken.2.set currentCursor newItem
        let stored ← buffer.get currentCursor
        pure ({ s with caches := drained.1, buffer := buffer }, [if added.2 then .ack else .nack],
          if stored.isAggregated then some targetBlockId else none)
      else
        let cached := s.caches.cacheCommitVote vote
        some ({ s with caches := cached.1 }, [if cached.2 then .ack else .nack], none)
  | .decision commitProof =>
      let targetBlockId := commitProof.commitInfo.id
      let cursor := s.buffer.findElemByKey s.buffer.head targetBlockId
      if cursor.isSome then do
        let taken ← s.buffer.take cursor
        let newItem ← taken.1.tryAdvanceToAggregatedWithLedgerInfo cfg.matchOrderedOnly commitProof
        let buffer ← taken.2.set cursor newItem
        if newItem.isAggregated then pure ({ s with buffer := buffer }, [.ack], some targetBlockId)
        else pure ({ s with buffer := buffer }, [.nack], none)
      else do
        let added ← s.caches.tryAddPendingCommitProof commitProof
        pure ({ s with caches := added.1 }, [.nack], none)
  | .ack | .nack => some (s, [], none)

/-- `process_reset_request` with its `reset`: the buffer and the roots are
emptied, the caches cleared, and a target round becomes the committed and the
latest round. -/
def processResetRequest (s : PipelineState) (signal : ResetSignal) : PipelineState × List Output :=
  let latestRound := match signal with
    | .stop => s.latestRound
    | .targetRound round => round
  let stop := match signal with
    | .stop => true
    | .targetRound _ => s.stop
  (⟨s.caches.processResetRequest signal, .new, none, none, latestRound, s.endEpochTimestamp, stop⟩, [.resetAck])

/-- The advance of the execution root, when it is unset. -/
def refreshExecutionRoot (s : PipelineState) : Option PipelineState :=
  if s.executionRoot.isNone then (advanceExecutionRoot s).map Prod.fst else some s

/-- The advance of the signing root, when it is unset. -/
def refreshSigningRoot (s : PipelineState) : Option (PipelineState × List Output) :=
  if s.signingRoot.isNone then advanceSigningRoot s else some (s, [])

/-- One event of the loop; `none` is a panic, an ordered batch held back by
backpressure, and any event once the loop has stopped. -/
def step (s : PipelineState) (event : Event) : Option (PipelineState × List Output) :=
  if s.stop then none
  else
    match event with
    | .orderedBlocks orderedBlocks orderedProof => do
        let backpressure ← s.needBackpressure
        if backpressure then none
        else do
          -- `OrderedBlocks::latest_round`
          let block ← orderedBlocks.getLast?
          let processed ← processOrderedBlocks cfg { s with latestRound := block.round } orderedBlocks orderedProof
          let s ← refreshExecutionRoot processed.1
          pure (s, processed.2)
    | .reset signal => some (processResetRequest s signal)
    | .executionScheduleResponse blockId => some (s, [.executionWaitRequest blockId])
    | .executionResponse blockId inner => do
        let processed ← processExecutionResponse cfg s blockId inner
        let advanced ← advanceExecutionRoot processed.1
        let retry : List Output := if advanced.2 = some blockId then [.scheduleRetry] else []
        let signing ← refreshSigningRoot advanced.1
        pure (signing.1, processed.2 ++ retry ++ signing.2)
    | .executionScheduleRetry => do
        let requests ← retrySchedulePhase s
        pure (s, requests)
    | .signingResponse signatureResult commitLedgerInfo => do
        let processed ← processSigningResponse cfg s signatureResult commitLedgerInfo
        let signing ← advanceSigningRoot processed.1
        pure (signing.1, processed.2 ++ signing.2)
    | .persistingResponse result =>
        match result with
        | .ok round => some ({ s with caches := s.caches.persisted round }, [])
        | .error _ => some (s, [])
    | .commitMessage msg => do
        let processed ← processCommitMessage cfg s msg
        match processed.2.2 with
        | none => pure (processed.1, processed.2.1)
        | some aggregatedBlockId => do
            let persisted ← advanceHead aggregatedBlockId processed.1
            let s ← refreshExecutionRoot persisted.1
            let signing ← refreshSigningRoot s
            pure (signing.1, processed.2.1 ++ persisted.2 ++ signing.2)

end Handlers

end PipelineState

end GravitySdk.Pipeline
