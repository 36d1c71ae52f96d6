/- The buffer manager as a labelled transition system.
   digest: Every public block operation is a call; one step runs a call under
   the mutex, waiting calls do not step, and errors are replies. -/

import GravitySdk.BlockBuffer.Ops
import GravitySdk.Lib.Transition

set_option autoImplicit false
set_option relaxedAutoImplicit false

namespace GravitySdk.BlockBuffer

open GravitySdk.Lib GravitySdk.Lib.Transition

variable {VS : Type}

/-- The block operations of `BlockBufferManager`, with their arguments. -/
inductive Call where
  | init (latestCommitBlockNumber : Nat) (blockNumberToBlockIdWithEpoch : KeyMap Nat (Nat × BlockId))
      (initialEpoch : Nat)
  | initEpoch (epoch : Nat)
  | setOrderedBlocks (parentId : BlockId) (block : ExternalBlock) (round : Nat)
  | getOrderedBlocks (startNum : Nat) (maxSize : Option Nat) (expectedEpoch : Nat)
  | getExecutedRes (blockId : BlockId) (blockNum epoch : Nat)
  | setComputeRes (blockId : BlockId) (blockHash : HashValue) (blockNum epoch : Nat)
      (events : List GravityEvent)
  | setCommitBlocks (blockIds : List BlockHashRef) (epoch : Nat)
  | getCommittedBlocks (startNum : Nat) (maxSize : Option Nat) (epoch : Nat)
  | setState (latestCommitBlockNumber latestFinalizedBlockNumber : Nat)
  | getEpochChangeBlockInfo (blockNum epoch : Nat)
  | releaseInflightBlocks
  | consumeEpochChange
  | removeCommittedBlocks

/-- What a call returns. -/
inductive Reply (VS : Type) where
  | unit
  | error (e : BbmError)
  | orderedBlocks (blocks : List (ExternalBlock × BlockId))
  | computeResult (r : StateComputeResult VS)
  | persistNotifiers (blockNumbers : List Nat)
  | committedBlocks (blocks : List CommittedRef)
  | epochBlockInfo (info : Option EpochBlockInfo)
  | epochChange (newEpoch blockNumber : Nat)
  deriving DecidableEq

namespace BlockBufferManager

/-- Replace the state machine behind the mutex. -/
def withMachine (m : BlockBufferManager VS) (s : BlockStateMachine VS) : BlockBufferManager VS :=
  { m with blockStateMachine := s }

@[simp] theorem withMachine_blockStateMachine (m : BlockBufferManager VS) (s : BlockStateMachine VS) :
    (m.withMachine s).blockStateMachine = s := rfl

@[simp] theorem withMachine_bufferState (m : BlockBufferManager VS) (s : BlockStateMachine VS) :
    (m.withMachine s).bufferState = m.bufferState := rfl

/-- A fallible call that leaves the state alone on error. -/
def commitOrReply (m : BlockBufferManager VS) (r : Except BbmError (BlockStateMachine VS)) :
    BlockBufferManager VS × Reply VS :=
  match r with
  | .ok s => (m.withMachine s, .unit)
  | .error e => (m, .error e)

/-- One call, run to completion under the mutex.  Calls that start with
`wait_until_ready` do not step before `init`, and the polling calls do not step
while they would keep waiting; `maxBlockSize` is the configured
`max_block_size` of the background pruning task. -/
def step (g : Gaptos VS) (maxBlockSize : Nat) (m : BlockBufferManager VS) :
    Call → Option (BlockBufferManager VS × Reply VS)
  | .init latestCommitBlockNumber map initialEpoch =>
      match m.init latestCommitBlockNumber map initialEpoch with
      | .ok m' => some (m', .unit)
      | .error e => some (m, .error e)
  | .initEpoch epoch =>
      some (m.withMachine { m.blockStateMachine with currentEpoch := epoch }, .unit)
  | .setOrderedBlocks parentId block round =>
      if m.isReady then some (m.commitOrReply (m.blockStateMachine.setOrderedBlocks parentId block round))
      else none
  | .getOrderedBlocks startNum maxSize expectedEpoch =>
      if m.isReady then
        (m.blockStateMachine.getOrderedBlocks startNum maxSize expectedEpoch).map fun
          | .ok blocks => (m, .orderedBlocks blocks)
          | .error e => (m, .error e)
      else none
  | .getExecutedRes blockId blockNum epoch =>
      if m.isReady then
        (m.blockStateMachine.getExecutedRes g blockId blockNum epoch).map fun
          | .ok (r, s) => (m.withMachine s, .computeResult r)
          | .error e => (m, .error e)
      else none
  | .setComputeRes blockId blockHash blockNum epoch events =>
      if m.isReady then
        some (m.commitOrReply (m.blockStateMachine.setComputeRes g blockId blockHash blockNum epoch events))
      else none
  | .setCommitBlocks blockIds epoch =>
      if m.isReady then
        match m.blockStateMachine.setCommitBlocks blockIds epoch with
        | (s, .ok notifiers) => some (m.withMachine s, .persistNotifiers notifiers)
        | (s, .error e) => some (m.withMachine s, .error e)
      else none
  | .getCommittedBlocks startNum maxSize epoch =>
      if m.isReady then
        (m.blockStateMachine.getCommittedBlocks startNum maxSize epoch).map fun
          | (blocks, s) => (m.withMachine s, .committedBlocks blocks)
      else none
  | .setState latestCommitBlockNumber latestFinalizedBlockNumber =>
      some (m.withMachine (m.blockStateMachine.setState latestCommitBlockNumber
        latestFinalizedBlockNumber), .unit)
  | .getEpochChangeBlockInfo blockNum epoch =>
      some (m, .epochBlockInfo (m.blockStateMachine.getEpochChangeBlockInfo blockNum epoch))
  | .releaseInflightBlocks => some (m.releaseInflightBlocks, .unit)
  | .consumeEpochChange =>
      let (m', reply) := m.consumeEpochChange
      some (m', .epochChange reply.1 reply.2)
  | .removeCommittedBlocks =>
      some (m.withMachine (m.blockStateMachine.removeCommittedBlocks maxBlockSize), .unit)

/-- The states right after a successful `init` of a fresh manager. -/
def Initialized (m : BlockBufferManager VS) : Prop :=
  ∃ latestCommitBlockNumber map initialEpoch,
    (BlockBufferManager.new : BlockBufferManager VS).init latestCommitBlockNumber map initialEpoch = .ok m

end BlockBufferManager

/-- The operations of a running manager: everything but `init` and `init_epoch`. -/
def Call.IsRunning : Call → Prop
  | .init _ _ _ => False
  | .initEpoch _ => False
  | _ => True

end GravitySdk.BlockBuffer
