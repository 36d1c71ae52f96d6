/- The items of the pipeline's buffer.
   digest: BufferItem of consensus/src/pipeline/buffer_item.rs: an ordered
   batch of blocks with the commit votes gathered before execution, then
   executed, signed and aggregated; the advance from ordered to executed, or
   straight to aggregated when a quorum of the early votes or a commit proof
   is there, the advance to signed, the aggregation by a commit decision or by
   a quorum of votes, and the adding of a matching commit vote.  Every advance
   keeps the ids of the blocks, and the commit info of an item that left the
   ordered stage names its last block. -/

import Mathlib
import GravitySdk.Pipeline.BufferManager
import GravitySdk.Pipeline.CommitCaches
import GravitySdk.Consensus.PendingVotes
import GravitySdk.Consensus.ValidatorVerifier

set_option autoImplicit false
set_option relaxedAutoImplicit false

namespace GravitySdk.Pipeline

open GravitySdk.Lib GravitySdk.Consensus

/-!
The blocks are `PipelinedBlock`s whose epoch states carry the index of their
verifier, as `EpochState` does in the consensus types.  The commit callback,
the reliable-broadcast handle of a signed item and the logs are left out; so
are the `epoch_block_info` of a `BlockInfo` and the `block_hash` and
`block_number` of a `LedgerInfo`, which the consensus types do not carry: the
commit info that `resolve_epoch_block_info` completes is compared here
without them.
-/

/-- A block of the pipeline. -/
abbrev Blk := PipelinedBlock Nat

/-- `PipelinedBlock::block_info`: the block's epoch, round and id with the
root hash and epoch state of its result, and its block number as the version. -/
def PipelinedBlock.blockInfo (b : Blk) : BlockInfo :=
  ⟨b.epoch, b.round, b.id, b.computeResult.rootHash, b.blockNumber.getD 0, b.timestampUsecs,
    b.computeResult.epochState.map fun es => ⟨es.epoch, es.verifier⟩⟩

/-- `PartialSignatures`, by author. -/
abbrev PartialSignatures := SortedStore Author Signature

/-- `OrderedItem`. -/
structure OrderedItem where
  unverifiedSignatures : PartialSignatures
  commitProof : Option LedgerInfoWithSignatures
  orderedBlocks : List Blk
  orderedProof : LedgerInfoWithSignatures

/-- `ExecutedItem`. -/
structure ExecutedItem where
  executedBlocks : List Blk
  partialCommitProof : LedgerInfoWithVerifiedSignatures
  commitInfo : BlockInfo
  orderedProof : LedgerInfoWithSignatures

/-- `SignedItem`. -/
structure SignedItem where
  executedBlocks : List Blk
  partialCommitProof : LedgerInfoWithVerifiedSignatures
  commitVote : CommitVote

/-- `AggregatedItem`. -/
structure AggregatedItem where
  executedBlocks : List Blk
  commitProof : LedgerInfoWithSignatures

/-- `BufferItem`. -/
inductive BufferItem where
  | ordered (item : OrderedItem)
  | executed (item : ExecutedItem)
  | signed (item : SignedItem)
  | aggregated (item : AggregatedItem)

/-- `generate_commit_ledger_info`: the commit info with the consensus data
hash of the ordered proof, or zero under order votes. -/
def generateCommitLedgerInfo (commitInfo : BlockInfo) (orderedProof : LedgerInfoWithSignatures)
    (orderVoteEnabled : Bool) : LedgerInfo :=
  ⟨commitInfo, if orderVoteEnabled then 0 else orderedProof.ledgerInfo.consensusDataHash⟩

/-- `verify_signatures`: the signatures that verify against the commit ledger
info. -/
def verifySignatures (unverifiedSignatures : PartialSignatures) (validator : ValidatorVerifier)
    (commitLedgerInfo : LedgerInfo) : PartialSignatures :=
  unverifiedSignatures.retainEntries fun author sig => validator.verify author (.ledgerInfo commitLedgerInfo) sig

/-- `executed_commit_timestamp_usecs`. -/
def executedCommitTimestampUsecs (correctedCommitTimestampUsecs blockTimestampUsecs : Nat)
    (useCorrectedCommitTimestamp : Bool) : Nat :=
  if useCorrectedCommitTimestamp then correctedCommitTimestampUsecs else blockTimestampUsecs

/-- `aggregate_commit_proof`: the verifier's aggregate of the signatures, in
`LedgerInfoWithSignatures::new` with the commit ledger info, whose aggregate
the model keeps as the signers it names; `none` is the panic of its
`expect`. -/
def aggregateCommitProof (commitLedgerInfo : LedgerInfo) (verifiedSignatures : PartialSignatures)
    (validator : ValidatorVerifier) : Option LedgerInfoWithSignatures :=
  match validator.aggregateSignatures verifiedSignatures.entries with
  | .ok aggregatedSig => some ⟨commitLedgerInfo, validator.signersAddresses aggregatedSig⟩
  | .error _ => none

/-- `generate_executed_item_from_ordered`: the commit info takes the last
block's number as its version and, before the fork, the block's own
timestamp; `none` is the panic of a block without a number or a batch
without blocks. -/
def generateExecutedItemFromOrdered (commitInfo : BlockInfo) (executedBlocks : List Blk)
    (verifiedSignatures : PartialSignatures) (orderedProof : LedgerInfoWithSignatures) (orderVoteEnabled : Bool)
    (useCorrectedCommitTimestamp : Bool) : Option BufferItem := do
  let block ← executedBlocks.getLast?
  let blockNumber ← block.blockNumber
  let timestampUsecs :=
    executedCommitTimestampUsecs commitInfo.timestampUsecs block.timestampUsecs useCorrectedCommitTimestamp
  let newCommitInfo := { commitInfo with version := blockNumber, timestampUsecs := timestampUsecs }
  let commitLedgerInfo := generateCommitLedgerInfo newCommitInfo orderedProof orderVoteEnabled
  pure (.executed ⟨executedBlocks, ⟨commitLedgerInfo, verifiedSignatures⟩, newCommitInfo, orderedProof⟩)

namespace BufferItem

/-- `BufferItem::new_ordered`. -/
def newOrdered (orderedBlocks : List Blk) (orderedProof : LedgerInfoWithSignatures) : BufferItem :=
  .ordered ⟨.empty, none, orderedBlocks, orderedProof⟩

/-- `get_blocks`. -/
def getBlocks : BufferItem → List Blk
  | .ordered item => item.orderedBlocks
  | .executed item => item.executedBlocks
  | .signed item => item.executedBlocks
  | .aggregated item => item.executedBlocks

/-- `block_id`: the id of the last block; `none` is the panic of an item
without blocks. -/
def blockId (item : BufferItem) : Option HashValue := item.getBlocks.getLast?.map (·.id)

/-- `commit_info`. -/
def commitInfo : BufferItem → BlockInfo
  | .ordered item => item.orderedProof.commitInfo
  | .executed item => item.commitInfo
  | .signed item => item.partialCommitProof.ledgerInfo.commitInfo
  | .aggregated item => item.commitProof.commitInfo

def isOrdered : BufferItem → Bool
  | .ordered _ => true
  | _ => false

def isExecuted : BufferItem → Bool
  | .executed _ => true
  | _ => false

def isSigned : BufferItem → Bool
  | .signed _ => true
  | _ => false

def isAggregated : BufferItem → Bool
  | .aggregated _ => true
  | _ => false

/-- `unwrap_executed_ref`; `none` is its panic. -/
def unwrapExecutedRef : BufferItem → Option ExecutedItem
  | .executed item => some item
  | _ => none

/-- `unwrap_signed_mut`; `none` is its panic. -/
def unwrapSignedMut : BufferItem → Option SignedItem
  | .signed item => some item
  | _ => none

/-- `unwrap_aggregated`; `none` is its panic. -/
def unwrapAggregated : BufferItem → Option AggregatedItem
  | .aggregated item => some item
  | _ => none

section Advance

-- `is_consensus_fork_active(ConsensusAlpha, _)` of the hardfork schedule, and
-- `BlockInfo::match_ordered_only`
variable (consensusAlphaActive : Nat → Bool) (matchOrderedOnly : BlockInfo → BlockInfo → Bool)

/-- The commit info of an executed batch: the last block's info, its timestamp
moved to the end of the epoch once that is known, which the assertion allows
only for a reconfiguration suffix; `none` is a panic. -/
def executedCommitInfo (block : Blk) (epochEndTimestamp : Option Nat) : Option BlockInfo :=
  let commitInfo := block.blockInfo
  match epochEndTimestamp with
  | some timestamp =>
      if commitInfo.timestampUsecs ≠ timestamp then
        if block.isReconfigurationSuffix then some { commitInfo with timestampUsecs := timestamp } else none
      else some commitInfo
  | none => some commitInfo

/-- `advance_to_executed_or_aggregated`; `none` is a panic: an item that is not
ordered, executed blocks that do not pair with the ordered ones by id, a commit
proof of another commit info, a block without a number, or a failed
aggregation. -/
def advanceToExecutedOrAggregated (validator : ValidatorVerifier) (item : BufferItem)
    (executedBlocks : List Blk) (epochEndTimestamp : Option Nat) (orderVoteEnabled : Bool) :
    Option BufferItem :=
  match item with
  | .ordered orderedItem =>
      -- `zip_eq` with `assert_eq!` of the ids
      if orderedItem.orderedBlocks.map (·.id) ≠ executedBlocks.map (·.id) then none
      else do
        let block ← executedBlocks.getLast?
        let commitInfo ← executedCommitInfo block epochEndTimestamp
        match orderedItem.commitProof with
        | some commitProof =>
            -- the proof received in the fast-forward sync path
            if commitProof.commitInfo = commitInfo then pure (.aggregated ⟨executedBlocks, commitProof⟩)
            else none
        | none =>
            let _ ← block.blockNumber
            let commitLedgerInfo := generateCommitLedgerInfo commitInfo orderedItem.orderedProof orderVoteEnabled
            let verifiedSignatures := verifySignatures orderedItem.unverifiedSignatures validator commitLedgerInfo
            match validator.checkVotingPower (verifiedSignatures.entries.map Prod.fst) with
            | .ok _ => do
                let commitProof ← aggregateCommitProof commitLedgerInfo verifiedSignatures validator
                pure (.aggregated ⟨executedBlocks, commitProof⟩)
            | .error _ =>
                generateExecutedItemFromOrdered commitInfo executedBlocks verifiedSignatures orderedItem.orderedProof
                  orderVoteEnabled (consensusAlphaActive block.timestampUsecs)
  | _ => none

/-- `advance_to_signed`: the commit vote of `author` with the signing phase's
signature on the partial commit proof's ledger info; `none` is the panic of an
item that is not executedItem. -/
def advanceToSigned (author : Author) (signature : Signature) : BufferItem → Option BufferItem
  | .executed item =>
      some (.signed ⟨item.executedBlocks, item.partialCommitProof, ⟨author, item.partialCommitProof.ledgerInfo, signature⟩⟩)
  | _ => none

/-- `try_advance_to_aggregated_with_ledger_info`: a commit proof of the item's
commit info aggregates an executed or signed item, and is kept by an ordered
item whose ordered proof matches it; `none` is a panic, an aggregated item
among them. -/
def tryAdvanceToAggregatedWithLedgerInfo (item : BufferItem) (commitProof : LedgerInfoWithSignatures) :
    Option BufferItem :=
  match item with
  | .signed signedItem =>
      if signedItem.partialCommitProof.ledgerInfo.commitInfo = commitProof.commitInfo then
        some (.aggregated ⟨signedItem.executedBlocks, commitProof⟩)
      else none
  | .executed executedItem =>
      if executedItem.commitInfo = commitProof.commitInfo then do
        let _ ← executedItem.executedBlocks.getLast?
        pure (.aggregated ⟨executedItem.executedBlocks, commitProof⟩)
      else none
  | .ordered orderedItem =>
      if matchOrderedOnly orderedItem.orderedProof.commitInfo commitProof.commitInfo then
        some (.ordered { orderedItem with commitProof := some commitProof })
      else none
  | .aggregated _ => none

/-- `try_advance_to_aggregated`: an executed or signed item whose signatures
carry a quorum is aggregated; `none` is a panic of the aggregation or of a
signed item without blocks. -/
def tryAdvanceToAggregated (validator : ValidatorVerifier) (item : BufferItem) : Option BufferItem :=
  match item with
  | .signed signedItem =>
      match validator.checkVotingPower signedItem.partialCommitProof.signers with
      | .ok _ => do
          let commitProof ← aggregateCommitProof signedItem.partialCommitProof.ledgerInfo
            signedItem.partialCommitProof.signatures validator
          let _ ← signedItem.executedBlocks.getLast?
          pure (.aggregated ⟨signedItem.executedBlocks, commitProof⟩)
      | .error _ => some item
  | .executed executedItem =>
      match validator.checkVotingPower executedItem.partialCommitProof.signers with
      | .ok _ => do
          let commitProof ← aggregateCommitProof executedItem.partialCommitProof.ledgerInfo
            executedItem.partialCommitProof.signatures validator
          pure (.aggregated ⟨executedItem.executedBlocks, commitProof⟩)
      | .error _ => some item
  | _ => some item

/-- `add_signature_if_matched`: the vote's signature joins an item whose commit
info it matches; the flag is the `Ok`. -/
def addSignatureIfMatched (item : BufferItem) (vote : CommitVote) : BufferItem × Bool :=
  let target := vote.commitInfo
  match item with
  | .ordered orderedItem =>
      if matchOrderedOnly orderedItem.orderedProof.commitInfo target then
        (.ordered { orderedItem with
          unverifiedSignatures := orderedItem.unverifiedSignatures.orInsert vote.author vote.signature }, true)
      else (item, false)
  | .executed executedItem =>
      if executedItem.commitInfo = target then
        (.executed { executedItem with
          partialCommitProof := executedItem.partialCommitProof.addSignature vote.author vote.signature }, true)
      else (item, false)
  | .signed signedItem =>
      if signedItem.partialCommitProof.ledgerInfo.commitInfo = target then
        (.signed { signedItem with
          partialCommitProof := signedItem.partialCommitProof.addSignature vote.author vote.signature }, true)
      else (item, false)
  | .aggregated aggregatedItem => (item, decide (aggregatedItem.commitProof.commitInfo = target))

end Advance

/-! ### What every advance keeps -/

/-- An item past the ordered stage commits its last block: its commit info,
and for an executed item the one its partial proof signs, carry the id of the
last block. -/
def CommitsLast : BufferItem → Prop
  | .ordered _ => True
  | .executed item =>
      item.partialCommitProof.ledgerInfo.commitInfo.id = item.commitInfo.id ∧
        some item.commitInfo.id = item.executedBlocks.getLast?.map (·.id)
  | .signed item => some item.partialCommitProof.ledgerInfo.commitInfo.id = item.executedBlocks.getLast?.map (·.id)
  | .aggregated item => some item.commitProof.commitInfo.id = item.executedBlocks.getLast?.map (·.id)

/-- What a change of an item in the buffer keeps: the ids of its blocks, and
that it commits its last block. -/
structure Keeps (item item' : BufferItem) : Prop where
  ids : item'.getBlocks.map (·.id) = item.getBlocks.map (·.id)
  commitsLast : item.CommitsLast → item'.CommitsLast

theorem Keeps.refl (item : BufferItem) : Keeps item item := ⟨rfl, id⟩

theorem Keeps.trans {item item' item'' : BufferItem} (h : Keeps item item') (h' : Keeps item' item'') :
    Keeps item item'' :=
  ⟨h'.ids.trans h.ids, h'.commitsLast ∘ h.commitsLast⟩

theorem Keeps.blockId_eq {item item' : BufferItem} (h : Keeps item item') : item'.blockId = item.blockId := by
  have lasts := congrArg List.getLast? h.ids
  simpa only [blockId, List.getLast?_map] using lasts

theorem commitsLast_aggregated {executedBlocks : List Blk} {block : Blk} (last : executedBlocks.getLast? = some block)
    {commitProof : LedgerInfoWithSignatures} (named : commitProof.commitInfo.id = block.id) :
    (BufferItem.aggregated ⟨executedBlocks, commitProof⟩).CommitsLast := by
  simp [CommitsLast, last, named]

end BufferItem

theorem aggregateCommitProof_ledgerInfo {commitLedgerInfo : LedgerInfo} {verifiedSignatures : PartialSignatures}
    {validator : ValidatorVerifier} {commitProof : LedgerInfoWithSignatures}
    (h : aggregateCommitProof commitLedgerInfo verifiedSignatures validator = some commitProof) :
    commitProof.ledgerInfo = commitLedgerInfo := by
  unfold aggregateCommitProof at h
  split at h
  · cases h
    rfl
  · cases h

theorem generateExecutedItemFromOrdered_eq_some {commitInfo : BlockInfo} {executedBlocks : List Blk}
    {verifiedSignatures : PartialSignatures} {orderedProof : LedgerInfoWithSignatures}
    {orderVoteEnabled useCorrectedCommitTimestamp : Bool} {item : BufferItem}
    (h : generateExecutedItemFromOrdered commitInfo executedBlocks verifiedSignatures orderedProof orderVoteEnabled
      useCorrectedCommitTimestamp = some item) :
    ∃ executedItem : ExecutedItem, item = .executed executedItem ∧ executedItem.executedBlocks = executedBlocks ∧
      executedItem.partialCommitProof.ledgerInfo.commitInfo = executedItem.commitInfo ∧
      executedItem.commitInfo.id = commitInfo.id := by
  simp only [generateExecutedItemFromOrdered, Option.bind_eq_bind, Option.bind_eq_some_iff] at h
  obtain ⟨block, -, blockNumber, -, made⟩ := h
  exact ⟨_, (Option.some.inj made).symm, rfl, rfl, rfl⟩

namespace BufferItem

theorem executedCommitInfo_id {block : Blk} {epochEndTimestamp : Option Nat} {commitInfo : BlockInfo}
    (h : executedCommitInfo block epochEndTimestamp = some commitInfo) : commitInfo.id = block.id := by
  unfold executedCommitInfo at h
  rcases epochEndTimestamp with _ | timestamp
  · rw [← Option.some.inj h]
    rfl
  · simp only at h
    split_ifs at h <;> (rw [← Option.some.inj h]; rfl)

section Keeps

variable {consensusAlphaActive : Nat → Bool} {matchOrderedOnly : BlockInfo → BlockInfo → Bool}
  {validator : ValidatorVerifier} {item item' : BufferItem}

theorem advanceToExecutedOrAggregated_eq_some {executedBlocks : List Blk} {epochEndTimestamp : Option Nat}
    {orderVoteEnabled : Bool}
    (h : advanceToExecutedOrAggregated consensusAlphaActive validator item executedBlocks epochEndTimestamp
      orderVoteEnabled = some item') :
    (∃ orderedItem, item = .ordered orderedItem ∧
      orderedItem.orderedBlocks.map (·.id) = executedBlocks.map (·.id)) ∧
      item'.getBlocks = executedBlocks ∧ item'.isOrdered = false ∧ item'.CommitsLast := by
  cases item with
  | executed _ | signed _ | aggregated _ => simp [advanceToExecutedOrAggregated] at h
  | ordered orderedItem =>
      simp only [advanceToExecutedOrAggregated, Option.bind_eq_bind] at h
      split_ifs at h with mismatch
      obtain ⟨block, last, h⟩ := Option.bind_eq_some_iff.mp h
      obtain ⟨commitInfo, committed, h⟩ := Option.bind_eq_some_iff.mp h
      have named := executedCommitInfo_id committed
      refine ⟨⟨orderedItem, rfl, not_not.mp mismatch⟩, ?_⟩
      split at h
      · -- the commit proof of the fast-forward path
        rename_i commitProof _
        split_ifs at h with same
        obtain rfl := Option.some.inj h
        exact ⟨rfl, rfl, commitsLast_aggregated last (by rw [same, named])⟩
      · obtain ⟨blockNumber, -, h⟩ := Option.bind_eq_some_iff.mp h
        split at h
        · -- a quorum of the early votes
          obtain ⟨commitProof, aggregated, made⟩ := Option.bind_eq_some_iff.mp h
          obtain rfl := Option.some.inj made
          have signs := aggregateCommitProof_ledgerInfo aggregated
          refine ⟨rfl, rfl, commitsLast_aggregated last ?_⟩
          simp [LedgerInfoWithSignatures.commitInfo, signs, generateCommitLedgerInfo, named]
        · obtain ⟨executedItem, rfl, blocks, signed, kept⟩ := generateExecutedItemFromOrdered_eq_some h
          refine ⟨blocks, rfl, ?_⟩
          simp [CommitsLast, signed, kept, named, blocks, last]

theorem advanceToExecutedOrAggregated_keeps {executedBlocks : List Blk} {epochEndTimestamp : Option Nat}
    {orderVoteEnabled : Bool}
    (h : advanceToExecutedOrAggregated consensusAlphaActive validator item executedBlocks epochEndTimestamp
      orderVoteEnabled = some item') : Keeps item item' := by
  obtain ⟨⟨orderedItem, rfl, sameIds⟩, blocks, -, commits⟩ := advanceToExecutedOrAggregated_eq_some h
  exact ⟨by rw [blocks, ← sameIds]; rfl, fun _ => commits⟩

theorem advanceToSigned_eq_some {author : Author} {signature : Signature}
    (h : advanceToSigned author signature item = some item') :
    item.isExecuted = true ∧ item'.isSigned = true ∧ Keeps item item' := by
  cases item with
  | ordered _ | signed _ | aggregated _ => simp [advanceToSigned] at h
  | executed executedItem =>
      obtain rfl := Option.some.inj h
      refine ⟨rfl, rfl, rfl, ?_⟩
      rintro ⟨signsOwn, named⟩
      simpa [CommitsLast, signsOwn] using named

theorem tryAdvanceToAggregatedWithLedgerInfo_keeps {commitProof : LedgerInfoWithSignatures}
    (h : tryAdvanceToAggregatedWithLedgerInfo matchOrderedOnly item commitProof = some item') : Keeps item item' := by
  cases item with
  | aggregated _ => simp [tryAdvanceToAggregatedWithLedgerInfo] at h
  | ordered orderedItem =>
      simp only [tryAdvanceToAggregatedWithLedgerInfo] at h
      split_ifs at h
      obtain rfl := Option.some.inj h
      exact ⟨rfl, fun _ => trivial⟩
  | executed executedItem =>
      simp only [tryAdvanceToAggregatedWithLedgerInfo, Option.bind_eq_bind] at h
      split_ifs at h with same
      obtain ⟨block, -, made⟩ := Option.bind_eq_some_iff.mp h
      obtain rfl := Option.some.inj made
      refine ⟨rfl, ?_⟩
      rintro ⟨-, named⟩
      simpa [CommitsLast, ← same] using named
  | signed signedItem =>
      simp only [tryAdvanceToAggregatedWithLedgerInfo] at h
      split_ifs at h with same
      obtain rfl := Option.some.inj h
      refine ⟨rfl, ?_⟩
      intro named
      simpa [CommitsLast, ← same] using named

theorem tryAdvanceToAggregated_keeps (h : tryAdvanceToAggregated validator item = some item') : Keeps item item' := by
  cases item with
  | ordered _ | aggregated _ =>
      obtain rfl := Option.some.inj h
      exact Keeps.refl _
  | executed executedItem =>
      simp only [tryAdvanceToAggregated, Option.bind_eq_bind] at h
      split at h
      · obtain ⟨commitProof, aggregated, made⟩ := Option.bind_eq_some_iff.mp h
        obtain rfl := Option.some.inj made
        have signs := aggregateCommitProof_ledgerInfo aggregated
        refine ⟨rfl, ?_⟩
        rintro ⟨signsOwn, named⟩
        simpa [CommitsLast, LedgerInfoWithSignatures.commitInfo, signs, signsOwn] using named
      · obtain rfl := Option.some.inj h
        exact Keeps.refl _
  | signed signedItem =>
      simp only [tryAdvanceToAggregated, Option.bind_eq_bind] at h
      split at h
      · obtain ⟨commitProof, aggregated, h⟩ := Option.bind_eq_some_iff.mp h
        obtain ⟨block, -, made⟩ := Option.bind_eq_some_iff.mp h
        obtain rfl := Option.some.inj made
        have signs := aggregateCommitProof_ledgerInfo aggregated
        refine ⟨rfl, ?_⟩
        intro named
        simpa [CommitsLast, LedgerInfoWithSignatures.commitInfo, signs] using named
      · obtain rfl := Option.some.inj h
        exact Keeps.refl _

variable (matchOrderedOnly) in
theorem addSignatureIfMatched_keeps (item : BufferItem) (vote : CommitVote) :
    Keeps item (addSignatureIfMatched matchOrderedOnly item vote).1 := by
  cases item with
  | aggregated _ => exact Keeps.refl _
  | ordered orderedItem =>
      simp only [addSignatureIfMatched]
      split_ifs
      · exact ⟨rfl, id⟩
      · exact Keeps.refl _
  | executed executedItem =>
      simp only [addSignatureIfMatched]
      split_ifs
      · exact ⟨rfl, id⟩
      · exact Keeps.refl _
  | signed signedItem =>
      simp only [addSignatureIfMatched]
      split_ifs
      · exact ⟨rfl, id⟩
      · exact Keeps.refl _

variable (matchOrderedOnly) in
theorem foldl_addSignatureIfMatched_keeps (votes : List CommitVote) (item : BufferItem) :
    Keeps item (votes.foldl (fun item vote => (addSignatureIfMatched matchOrderedOnly item vote).1) item) := by
  induction votes generalizing item with
  | nil => exact Keeps.refl item
  | cons vote votes ih => exact (addSignatureIfMatched_keeps matchOrderedOnly item vote).trans (ih _)

end Keeps

end BufferItem

end GravitySdk.Pipeline
