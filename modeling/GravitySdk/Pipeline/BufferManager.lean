/- The epoch block info the buffer manager attaches to a commit.
   digest: resolve_epoch_block_info of consensus/src/pipeline/buffer_manager.rs
   over the pipelined blocks of an executed batch and the block buffer
   manager's epoch-change cache: while the cache recorded by set_compute_res
   is present, the epoch-change block and every suffix block resolve to the
   epoch-change block's info; once release_inflight_blocks has dropped the
   cache, a suffix block resolves to its own id, number and round. -/

import GravitySdk.BlockBuffer.EpochChange

set_option autoImplicit false
set_option relaxedAutoImplicit false

namespace GravitySdk.Pipeline

open GravitySdk.Lib GravitySdk.Lib.Transition GravitySdk.BlockBuffer

variable {VS : Type}

/-- The fields of `PipelinedBlock` that the buffer manager reads when it
resolves an epoch change: the block's id, its `block_number` (set once
consensus numbered it), epoch, round and timestamp, and the compute result the
block buffer manager returned for it. -/
structure PipelinedBlock (VS : Type) where
  id : BlockId
  blockNumber : Option Nat
  epoch : Nat
  round : Nat
  timestampUsecs : Nat
  computeResult : StateComputeResult VS
  deriving DecidableEq, Repr

/-- `PipelinedBlock::is_reconfiguration_suffix`: the compute result carries an
epoch state, which holds for the epoch-change block and its suffix alike. -/
def PipelinedBlock.isReconfigurationSuffix (b : PipelinedBlock VS) : Bool :=
  b.computeResult.hasReconfiguration

/-- The `end_epoch_timestamp` that `process_execution_response` keeps: set
once, to the timestamp of the first block of a batch whose block info has a
reconfiguration. -/
def recordEndEpochTimestamp (endEpochTimestamp : Option Nat) (executedBlocks : List (PipelinedBlock VS)) :
    Option Nat :=
  match endEpochTimestamp with
  | some timestamp => some timestamp
  | none => (executedBlocks.find? fun b => b.computeResult.hasReconfiguration).map PipelinedBlock.timestampUsecs

/-- `BufferManager::resolve_epoch_block_info` for the last block of a batch,
with the block buffer manager read through `get_epoch_change_block_info`. -/
def resolveEpochBlockInfo (bbm : BlockStateMachine VS) (endEpochTimestamp : Option Nat)
    (lastBlock : PipelinedBlock VS) : Option EpochBlockInfo :=
  let blockNumber := lastBlock.blockNumber.getD 0
  -- path 1: the cache of the block buffer manager, for a suffix block
  match bbm.getEpochChangeBlockInfo blockNumber lastBlock.epoch with
  | some epochInfo => some epochInfo
  | none =>
      -- path 2: a block whose own result carries the reconfiguration
      if lastBlock.computeResult.hasReconfiguration then
        let epochInfo : EpochBlockInfo :=
          ⟨lastBlock.id, blockNumber, lastBlock.round, lastBlock.timestampUsecs,
            lastBlock.computeResult.rootHash⟩
        match endEpochTimestamp with
        | some timestamp =>
            if lastBlock.timestampUsecs ≠ timestamp ∧ lastBlock.isReconfigurationSuffix = true then
              some { epochInfo with epochStartTimestampUsecs := timestamp }
            else some epochInfo
        | none => some epochInfo
      -- path 3: no epoch change
      else none

/-! ### The two paths

Path 1 answers for a block of the current epoch above the cached
epoch-change block, and only then; path 2 answers with the block's own id,
number, round and root hash whenever path 1 does not and the block's result
carries an epoch state, which the dummy result of a suffix block does. -/

section Paths

variable {bbm : BlockStateMachine VS} {endEpochTimestamp : Option Nat} {lastBlock : PipelinedBlock VS}

theorem getEpochChangeBlockInfo_of_cache {cache : EpochChangeCache VS} {n epoch : Nat}
    (cached : bbm.epochChangeBlockInfo = some cache) (above : cache.epochBlockInfo.blockNumber < n)
    (current : epoch = bbm.currentEpoch) :
    bbm.getEpochChangeBlockInfo n epoch = some cache.epochBlockInfo := by
  simp [BlockStateMachine.getEpochChangeBlockInfo, cached, above, current]

theorem getEpochChangeBlockInfo_not_above {cache : EpochChangeCache VS} {n epoch : Nat}
    (cached : bbm.epochChangeBlockInfo = some cache) (notAbove : n ≤ cache.epochBlockInfo.blockNumber) :
    bbm.getEpochChangeBlockInfo n epoch = none := by
  simp [BlockStateMachine.getEpochChangeBlockInfo, cached, Nat.not_lt.mpr notAbove]

theorem getEpochChangeBlockInfo_no_cache {n epoch : Nat} (noCache : bbm.epochChangeBlockInfo = none) :
    bbm.getEpochChangeBlockInfo n epoch = none := by
  simp [BlockStateMachine.getEpochChangeBlockInfo, noCache]

theorem resolveEpochBlockInfo_cached {info : EpochBlockInfo}
    (hit : bbm.getEpochChangeBlockInfo (lastBlock.blockNumber.getD 0) lastBlock.epoch = some info) :
    resolveEpochBlockInfo bbm endEpochTimestamp lastBlock = some info := by
  simp [resolveEpochBlockInfo, hit]

theorem resolveEpochBlockInfo_own (miss : bbm.getEpochChangeBlockInfo (lastBlock.blockNumber.getD 0) lastBlock.epoch = none)
    (reconfig : lastBlock.computeResult.hasReconfiguration = true) :
    resolveEpochBlockInfo bbm endEpochTimestamp lastBlock =
      some ⟨lastBlock.id, lastBlock.blockNumber.getD 0, lastBlock.round,
        (endEpochTimestamp.filter fun t => lastBlock.timestampUsecs ≠ t).getD lastBlock.timestampUsecs,
        lastBlock.computeResult.rootHash⟩ := by
  have suffix : lastBlock.isReconfigurationSuffix = true := reconfig
  cases endEpochTimestamp with
  | none => simp [resolveEpochBlockInfo, miss, reconfig]
  | some t =>
    by_cases same : lastBlock.timestampUsecs = t
    · simp [resolveEpochBlockInfo, miss, reconfig, same, Option.filter]
    · simp [resolveEpochBlockInfo, miss, reconfig, same, suffix, Option.filter]

theorem resolveEpochBlockInfo_none (miss : bbm.getEpochChangeBlockInfo (lastBlock.blockNumber.getD 0) lastBlock.epoch = none)
    (quiet : lastBlock.computeResult.hasReconfiguration = false) :
    resolveEpochBlockInfo bbm endEpochTimestamp lastBlock = none := by
  simp [resolveEpochBlockInfo, miss, quiet]

end Paths

/-! ### While the cache is present, and after it is dropped -/

section Runs

variable {g : Gaptos VS} {maxBlockSize : Nat} {m m₀ m₁ : BlockBufferManager VS}

open BlockBufferManager BlockStateMachine

/-- After `set_compute_res` recorded `NewEpoch` for block `n` of the current
epoch, and along any run that records no other change and does not release,
the epoch-change block and every block of the epoch above it resolve to the
info of block `n`, and a block below it without an epoch state to none. -/
theorem resolveEpochBlockInfo_while_cached {blockId : BlockId} {blockHash : HashValue} {n epoch e' : Nat}
    {events : List GravityEvent} {bytes : List UInt8} {block : ExternalBlock} {parentId : BlockId}
    {round : Nat} {calls : List Call}
    (announces : events.find? GravityEvent.isNewEpoch = some (.newEpoch e' bytes))
    (ordered : m.blockStateMachine.blocks.get ⟨epoch, n⟩ = some (.ordered block parentId round))
    (current : m.blockStateMachine.currentEpoch = epoch)
    (recorded : step g maxBlockSize m (.setComputeRes blockId blockHash n epoch events) = some (m₀, .unit))
    (run : Exec (step g maxBlockSize) (fun _ c => c.KeepsEpochChange ∧ c ≠ .releaseInflightBlocks)
      m₀ calls m₁) :
    (∀ endEpochTimestamp (lastBlock : PipelinedBlock VS) l, lastBlock.epoch = epoch →
      lastBlock.blockNumber = some l → n < l →
      resolveEpochBlockInfo m₁.blockStateMachine endEpochTimestamp lastBlock =
        some ⟨blockId, n, round, block.usecs, blockHash⟩) ∧
    (∀ endEpochTimestamp (lastBlock : PipelinedBlock VS), lastBlock.id = blockId →
      lastBlock.blockNumber = some n → lastBlock.round = round → lastBlock.timestampUsecs = block.usecs →
      lastBlock.computeResult.hasReconfiguration = true → lastBlock.computeResult.rootHash = blockHash →
      (endEpochTimestamp = none ∨ endEpochTimestamp = some block.usecs) →
      resolveEpochBlockInfo m₁.blockStateMachine endEpochTimestamp lastBlock =
        some ⟨blockId, n, round, block.usecs, blockHash⟩) ∧
    (∀ endEpochTimestamp (lastBlock : PipelinedBlock VS) l, lastBlock.blockNumber = some l → l ≤ n →
      lastBlock.computeResult.hasReconfiguration = false →
      resolveEpochBlockInfo m₁.blockStateMachine endEpochTimestamp lastBlock = none) := by
  -- the cache written by `set_compute_res`, kept by every call of the run
  obtain ⟨s₀, ok, rfl⟩ := step_setComputeRes_unit recorded
  obtain ⟨cached₀, epoch₀⟩ := setComputeRes_caches announces ordered ok
  obtain ⟨cache, cached, infoEq⟩ := Option.map_eq_some_iff.mp cached₀
  have kept : m₁.blockStateMachine.epochChangeBlockInfo = some cache ∧
      m₁.blockStateMachine.currentEpoch = epoch := by
    refine run.invariant
      (fun m' => m'.blockStateMachine.epochChangeBlockInfo = some cache ∧
        m'.blockStateMachine.currentEpoch = epoch) ?_ ⟨cached, epoch₀.trans current⟩
    rintro m' m'' c r ⟨hCache, hEpoch⟩ ⟨keeps, notRelease⟩ h
    obtain ⟨fields, -⟩ := step_epochFieldsKept c keeps notRelease h
    exact ⟨fields.cache_eq.trans hCache, fields.currentEpoch_eq.trans hEpoch⟩
  obtain ⟨cacheNow, epochNow⟩ := kept
  refine ⟨?_, ?_, ?_⟩
  · intro endEpochTimestamp lastBlock l sameEpoch numbered above
    rw [← infoEq]
    apply resolveEpochBlockInfo_cached
    rw [numbered, Option.getD_some, sameEpoch]
    exact getEpochChangeBlockInfo_of_cache cacheNow (infoEq ▸ above) epochNow.symm
  · intro endEpochTimestamp lastBlock sameId numbered sameRound sameTime reconfig sameHash stamp
    have miss : m₁.blockStateMachine.getEpochChangeBlockInfo (lastBlock.blockNumber.getD 0) lastBlock.epoch =
        none := by
      rw [numbered, Option.getD_some]
      exact getEpochChangeBlockInfo_not_above cacheNow (by simp [infoEq])
    rw [resolveEpochBlockInfo_own miss reconfig, sameId, numbered, sameRound, sameTime, sameHash]
    rcases stamp with rfl | rfl <;> simp [Option.filter]
  · intro endEpochTimestamp lastBlock l numbered notAbove quiet
    apply resolveEpochBlockInfo_none _ quiet
    rw [numbered, Option.getD_some]
    exact getEpochChangeBlockInfo_not_above cacheNow (by rw [infoEq]; exact notAbove)

/-- After `release_inflight_blocks` no cache is left, so every block whose
result carries an epoch state, a suffix block with its dummy included,
resolves to its own id, number and round. -/
theorem resolveEpochBlockInfo_after_release (endEpochTimestamp : Option Nat) (lastBlock : PipelinedBlock VS)
    (reconfig : lastBlock.computeResult.hasReconfiguration = true) :
    (resolveEpochBlockInfo m.releaseInflightBlocks.blockStateMachine endEpochTimestamp lastBlock).map
        (fun info => (info.blockId, info.blockNumber, info.epochStartRound)) =
      some (lastBlock.id, lastBlock.blockNumber.getD 0, lastBlock.round) := by
  have noCache : m.releaseInflightBlocks.blockStateMachine.epochChangeBlockInfo = none := by
    unfold BlockBufferManager.releaseInflightBlocks
    split_ifs with pending
    · rfl
    · simp only [hasPendingEpochChange, Bool.or_eq_true, bne_iff_ne, ne_eq, Option.isSome_iff_ne_none,
        not_or, not_not] at pending
      exact pending.2
  rw [resolveEpochBlockInfo_own (getEpochChangeBlockInfo_no_cache noCache) reconfig]
  rfl

/-- Block 1 of epoch 1 announces epoch 2 and block 2 above it gets the dummy
result from `get_executed_res`.  With the cache present the batch ending at
block 2 resolves to block 1's info; after `release_inflight_blocks` the same
batch resolves to block 2's own id, number and round, with the placeholder
hash. -/
theorem resolveEpochBlockInfo_depends_on_cache :
    let g : Gaptos Unit := ⟨fun _ => .ok (), 0⟩
    let calls : List Call :=
      [.init 0 KeyMap.empty 1, .setOrderedBlocks 10 ⟨11, 1, 100, 1, 0⟩ 5,
        .setOrderedBlocks 11 ⟨12, 2, 200, 1, 0⟩ 6, .setComputeRes 11 111 1 1 [.newEpoch 2 []],
        .getExecutedRes 12 2 1]
    let suffix : PipelinedBlock Unit :=
      ⟨12, some 2, 1, 6, 200, StateComputeResult.newDummyWithEpochState g ⟨2, ()⟩⟩
    (run (step g 256) new calls).map
        (fun p => (p.2.getLast?, resolveEpochBlockInfo p.1.blockStateMachine (some 100) suffix)) =
      some (some (.computeResult suffix.computeResult), some ⟨11, 1, 5, 100, 111⟩) ∧
    (run (step g 256) new (calls ++ [.releaseInflightBlocks])).map
        (fun p => resolveEpochBlockInfo p.1.blockStateMachine (some 100) suffix) =
      some (some ⟨12, 2, 6, 100, 0⟩) := by
  decide +kernel

end Runs

end GravitySdk.Pipeline
