/- The data of crates/block-buffer-manager/src/block_buffer_manager.rs.
   digest: Block keys, the four block states, compute results with their dummy
   forms, the epoch-change cache and the state machine guarded by the manager's
   mutex. -/

import GravitySdk.Lib.KeyMap

set_option autoImplicit false
set_option relaxedAutoImplicit false

namespace GravitySdk.BlockBuffer

open GravitySdk.Lib

/-- A 32-byte block id (`BlockId`, `HashValue`). -/
abbrev BlockId := Nat

/-- A 32-byte hash (`[u8; 32]`). -/
abbrev HashValue := Nat

/-- `BlockKey`: blocks are indexed by epoch and block number. -/
structure BlockKey where
  epoch : Nat
  blockNumber : Nat
  deriving DecidableEq, Repr

/-- The fields of `ExternalBlock` that the buffer manager reads: the
`block_meta` id, number, timestamp and epoch, and the number of transactions. -/
structure ExternalBlock where
  blockId : BlockId
  blockNumber : Nat
  usecs : Nat
  epoch : Nat
  txnCount : Nat
  deriving DecidableEq, Repr

/-- `GravityEvent`, with the two variants the buffer manager matches on; every
other variant is `other`. -/
inductive GravityEvent where
  | newEpoch (epoch : Nat) (bytes : List UInt8)
  | observedJWKsUpdated (number : Nat)
  | other
  deriving DecidableEq, Repr

/-- `matches!(event, GravityEvent::NewEpoch(_, _))`. -/
def GravityEvent.isNewEpoch : GravityEvent → Bool
  | .newEpoch _ _ => true
  | _ => false

/-- Which of the two decoding stages of a `NewEpoch` payload failed: the BCS
deserialisation or `convert_validator_set`. -/
inductive DecodeFailure where
  | deserialize
  | convert
  deriving DecidableEq, Repr

/-- The parts of the `gaptos` crate that the buffer manager calls.  `VS` is
the decoded validator set; the crate's code is not in the repository, so its
decoder and its placeholder hash enter the model as parameters. -/
structure Gaptos (VS : Type) where
  /-- `bcs::from_bytes` followed by `convert_validator_set`. -/
  decodeValidatorSet : List UInt8 → Except DecodeFailure VS
  /-- `ACCUMULATOR_PLACEHOLDER_HASH`, the root hash of `StateComputeResult::new_dummy`. -/
  accumulatorPlaceholderHash : HashValue

variable {VS : Type}

/-- `EpochState`: the new epoch and its validator set. -/
structure EpochState (VS : Type) where
  epoch : Nat
  verifier : VS
  deriving DecidableEq, Repr

/-- `ComputeRes` without its `txn_status`, which the manager only passes on. -/
structure ComputeRes where
  data : HashValue
  txnNum : Nat
  events : List GravityEvent
  deriving DecidableEq, Repr

/-- `StateComputeResult`; its `block_end_info` is always `None` here. -/
structure StateComputeResult (VS : Type) where
  executionOutput : ComputeRes
  epochState : Option (EpochState VS)
  deriving DecidableEq, Repr

namespace StateComputeResult

/-- `StateComputeResult::has_reconfiguration`. -/
def hasReconfiguration (r : StateComputeResult VS) : Bool := r.epochState.isSome

/-- `StateComputeResult::root_hash`. -/
def rootHash (r : StateComputeResult VS) : HashValue := r.executionOutput.data

/-- `StateComputeResult::with_root_hash`. -/
def withRootHash (h : HashValue) : StateComputeResult VS :=
  { executionOutput := { data := h, txnNum := 0, events := [] }, epochState := none }

/-- `StateComputeResult::new_dummy`. -/
def newDummy (g : Gaptos VS) : StateComputeResult VS := withRootHash g.accumulatorPlaceholderHash

/-- `StateComputeResult::new_dummy_with_epoch_state`: the result given to the
suffix blocks of an epoch change. -/
def newDummyWithEpochState (g : Gaptos VS) (es : EpochState VS) : StateComputeResult VS :=
  { newDummy g with epochState := some es }

/-- A result that is the dummy of some suffix block. -/
def IsSuffixDummy (g : Gaptos VS) (r : StateComputeResult VS) : Prop :=
  ∃ es, r = newDummyWithEpochState g es

end StateComputeResult

/-- `EpochBlockInfo`: what the commit ledger info records about the block that
changed the epoch. -/
structure EpochBlockInfo where
  blockId : BlockId
  blockNumber : Nat
  epochStartRound : Nat
  epochStartTimestampUsecs : Nat
  blockHash : HashValue
  deriving DecidableEq, Repr

/-- `EpochChangeCache`. -/
structure EpochChangeCache (VS : Type) where
  epochBlockInfo : EpochBlockInfo
  epochState : EpochState VS
  deriving DecidableEq, Repr

/-- `BlockState`.  A `persist_notifier` is an `Option<Sender<()>>`, kept here as
whether the sender is present. -/
inductive BlockState (VS : Type) where
  | ordered (block : ExternalBlock) (parentId : BlockId) (round : Nat)
  | computed (id : BlockId) (computeResult : StateComputeResult VS)
  | committed (hash : Option HashValue) (computeResult : StateComputeResult VS) (id : BlockId)
      (persistNotifier : Bool)
  | historical (id : BlockId)
  deriving DecidableEq, Repr

namespace BlockState

/-- `BlockState::get_block_id`. -/
def getBlockId : BlockState VS → BlockId
  | .ordered block _ _ => block.blockId
  | .computed id _ => id
  | .committed _ _ id _ => id
  | .historical id => id

/-- `matches!(state, BlockState::Ordered { .. })`. -/
def isOrdered : BlockState VS → Bool
  | .ordered _ _ _ => true
  | _ => false

/-- The compute result a state carries, if any. -/
def computeResult? : BlockState VS → Option (StateComputeResult VS)
  | .computed _ r => some r
  | .committed _ r _ _ => some r
  | _ => none

end BlockState

/-- `BufferState`, stored in the manager's atomic byte. -/
inductive BufferState where
  | uninitialized
  | ready
  | epochChange
  deriving DecidableEq, Repr

/-- `BlockStateMachine` without its broadcast sender and its profiling map,
neither of which any decision reads. -/
structure BlockStateMachine (VS : Type) where
  blocks : KeyMap BlockKey (BlockState VS)
  latestCommitBlockNumber : Nat
  latestFinalizedBlockNumber : Nat
  blockNumberToBlockId : KeyMap Nat BlockId
  currentEpoch : Nat
  nextEpoch : Option Nat
  latestEpochChangeBlockNumber : Nat
  epochChangeBlockInfo : Option (EpochChangeCache VS)
  epochChangeReady : Bool

/-- The block side of `BlockBufferManager`: the state machine behind its mutex
and the `buffer_state` byte. -/
structure BlockBufferManager (VS : Type) where
  blockStateMachine : BlockStateMachine VS
  bufferState : BufferState

/-- `BlockBufferManager::new`: everything empty or zero, not yet initialised. -/
def BlockBufferManager.new : BlockBufferManager VS where
  blockStateMachine :=
    { blocks := KeyMap.empty
      latestCommitBlockNumber := 0
      latestFinalizedBlockNumber := 0
      blockNumberToBlockId := KeyMap.empty
      currentEpoch := 0
      nextEpoch := none
      latestEpochChangeBlockNumber := 0
      epochChangeBlockInfo := none
      epochChangeReady := false }
  bufferState := .uninitialized

/-- The errors the block operations return: one constructor per error site,
named after its message and carrying the values the message prints. -/
inductive BbmError where
  | initRequiresNonEmptyMap (latestCommitBlockNumber : Nat)
  | initCommitBlockNotFound (latestCommitBlockNumber : Nat)
  | orderedEpochChangeWaiting (latestEpochChangeBlockNumber : Nat)
  | orderedFutureEpoch (blockNumber epoch currentEpoch : Nat)
  | bufferInEpochChange
  | executedComputedIdMismatch (expected got : BlockId)
  | executedCommittedIdMismatch (expected got : BlockId)
  | executedHistorical (id : BlockId) (blockNumber : Nat)
  | executedNoOrderedBlock (id : BlockId) (blockNumber latestEpochChangeBlockNumber : Nat)
  | newEpochEventNotNewEpoch
  | onChainConfig (failure : DecodeFailure)
  | computeIdMismatch (expected got : BlockId)
  | computeNoOrderedBlock (id : BlockId)
  | commitComputedIdMismatch (id storedId : BlockId) (blockNumber : Nat)
  | commitCommittedIdMismatch (id storedId : BlockId)
  | commitMeetsOrdered (id : BlockId) (blockNumber : Nat)
  | commitHistoricalIdMismatch (id storedId : BlockId) (blockNumber : Nat)
  | commitNoBlock (id : BlockId) (blockNumber : Nat)
  deriving DecidableEq, Repr

/-- `BlockHashRef` as `set_commit_blocks` reads it (its input notifier is
never read). -/
structure BlockHashRef where
  blockId : BlockId
  num : Nat
  hash : Option HashValue
  deriving DecidableEq, Repr

/-- `BlockHashRef` as `get_committed_blocks` returns it, with whether the
persist notifier was handed over. -/
structure CommittedRef where
  blockId : BlockId
  num : Nat
  hash : Option HashValue
  persistNotifier : Bool
  deriving DecidableEq, Repr

end GravitySdk.BlockBuffer
