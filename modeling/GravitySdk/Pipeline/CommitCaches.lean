/- The buffer manager's caches of early commit messages.
   digest: What consensus/src/pipeline/buffer_manager.rs keeps of commit
   votes and commit proofs that arrive before their block is in the buffer:
   cache_commit_vote with its round window and its limit of block ids per
   author, drain_cached_commit_votes, try_add_pending_commit_proof with the
   eviction of the smallest round, drain_pending_commit_proof_till, and the
   two writers of highest_committed_round (the persisting phase and reset),
   as one state machine over the fields they share. -/

import GravitySdk.Consensus.Types
import GravitySdk.Lib.SortedStore
import GravitySdk.Lib.Checked

set_option autoImplicit false
set_option relaxedAutoImplicit false

namespace GravitySdk.Pipeline

open GravitySdk.Lib GravitySdk.Consensus

/-- `CommitVote`: its author, the ledger info it signs and its signature. -/
structure CommitVote where
  author : Author
  ledgerInfo : LedgerInfo
  signature : Signature
  deriving DecidableEq, Repr

/-- `CommitVote::commit_info`. -/
def CommitVote.commitInfo (vote : CommitVote) : BlockInfo := vote.ledgerInfo.commitInfo

/-- The commit votes cached for one round: for each block id, the vote of each
author (`HashMap<HashValue, HashMap<HashValue, CommitVote>>`, the author's
address read as a hash). -/
abbrev RoundCache := SortedStore HashValue (SortedStore Author CommitVote)

/-- The fields of `BufferManager` that its caches of early commit messages
read and write. -/
structure BufferManager where
  highestCommittedRound : Nat
  commitVoteCache : SortedStore Nat RoundCache
  maxPendingRoundsInCommitVoteCache : Nat
  pendingCommitProofs : SortedStore Nat LedgerInfoWithSignatures

/-- `BufferManager::new`: both caches empty. -/
def BufferManager.new (highestCommittedRound maxPendingRoundsInCommitVoteCache : Nat) : BufferManager :=
  ⟨highestCommittedRound, .empty, maxPendingRoundsInCommitVoteCache, .empty⟩

/-- `MAX_CACHED_BLOCK_IDS_PER_AUTHOR_PER_COMMIT_VOTE_ROUND`. -/
def maxCachedBlockIdsPerAuthorPerCommitVoteRound : Nat := 2

/-- `MAX_PENDING_COMMIT_PROOFS` of `try_add_pending_commit_proof`. -/
def maxPendingCommitProofs : Nat := 100

/-! ### Commit votes -/

/-- `CommitVoteRoundClass`. -/
inductive CommitVoteRoundClass where
  | alreadyCommitted
  | outsideWindow
  | inWindow
  deriving DecidableEq, Repr

/-- `classify_commit_vote_round`. -/
def classifyCommitVoteRound (round highestCommittedRound maxCachedRound : Nat) : CommitVoteRoundClass :=
  if round ≤ highestCommittedRound then .alreadyCommitted
  else if maxCachedRound ≤ round then .outsideWindow
  else .inWindow

/-- `can_cache_commit_vote_for_block`: a vote for a block id the round already
holds is taken; one that would open a new block id only while fewer than two
of the round's block ids hold a vote of its author. -/
def canCacheCommitVoteForBlock {V : Type} (roundCache : SortedStore HashValue (SortedStore Author V))
    (blockId : HashValue) (author : Author) : Bool :=
  if (roundCache.get blockId).isSome then true
  else
    let cachedBlockIdsForAuthor := (roundCache.entries.filter fun e => (e.2.get author).isSome).length
    decide (cachedBlockIdsForAuthor < maxCachedBlockIdsPerAuthorPerCommitVoteRound)

namespace BufferManager

/-- `max_cached_round` of `cache_commit_vote`:
`highest_committed_round.saturating_add(max_pending_rounds)` on u64. -/
def maxCachedRound (bm : BufferManager) : Nat :=
  Checked.saturatingAdd UInt64.size bm.highestCommittedRound bm.maxPendingRoundsInCommitVoteCache

/-- The `retain` that opens `cache_commit_vote`: the cached rounds inside the
window `(highest_committed_round, max_cached_round)`. -/
def retainWindow (bm : BufferManager) : SortedStore Nat RoundCache :=
  bm.commitVoteCache.retain fun cachedRound =>
    decide (bm.highestCommittedRound < cachedRound ∧ cachedRound < bm.maxCachedRound)

/-- `round_cache.entry(block_id).or_default().insert(author, vote)`. -/
def addVote (roundCache : RoundCache) (blockId : HashValue) (vote : CommitVote) : RoundCache :=
  roundCache.insert blockId (((roundCache.get blockId).getD .empty).insert vote.author vote)

/-- `BufferManager::cache_commit_vote`; the flag is the ack. -/
def cacheCommitVote (bm : BufferManager) (vote : CommitVote) : BufferManager × Bool :=
  let round := vote.commitInfo.round
  let retained := bm.retainWindow
  let windowed := { bm with commitVoteCache := retained }
  match classifyCommitVoteRound round bm.highestCommittedRound bm.maxCachedRound with
  | .alreadyCommitted => (windowed, true)
  | .outsideWindow => (windowed, false)
  | .inWindow =>
      -- `entry(round).or_default()` leaves the round's entry in place even
      -- when the vote is then refused
      let roundCache := (retained.get round).getD .empty
      let opened := retained.insert round roundCache
      let added := retained.insert round (addVote roundCache vote.commitInfo.id vote)
      if !canCacheCommitVoteForBlock roundCache vote.commitInfo.id vote.author then
        ({ bm with commitVoteCache := opened }, false)
      else ({ bm with commitVoteCache := added }, true)

/-- `BufferManager::drain_cached_commit_votes`: the votes cached for a block,
in the order `intoValues` gives for its hash map; a round left without block
ids is removed. -/
def drainCachedCommitVotes (intoValues : SortedStore Author CommitVote → List CommitVote) (bm : BufferManager)
    (round : Nat) (blockId : HashValue) : BufferManager × List CommitVote :=
  match bm.commitVoteCache.get round with
  | some roundCache =>
      let votes := ((roundCache.get blockId).map intoValues).getD []
      let rest := roundCache.erase blockId
      let cache := if rest.entries.isEmpty then bm.commitVoteCache.erase round
        else bm.commitVoteCache.insert round rest
      ({ bm with commitVoteCache := cache }, votes)
  | none => (bm, [])

/-! ### Commit proofs -/

/-- `BufferManager::try_add_pending_commit_proof`; `none` is the panic of its
`expect`, the flag whether the proof was taken. -/
def tryAddPendingCommitProof (bm : BufferManager) (commitProof : LedgerInfoWithSignatures) :
    Option (BufferManager × Bool) :=
  let round := commitProof.commitInfo.round
  if bm.highestCommittedRound < round then
    if maxPendingCommitProofs ≤ bm.pendingCommitProofs.entries.length then
      match bm.pendingCommitProofs.first? with
      | none => none
      | some (oldestRound, _) =>
          if round ≤ oldestRound then some (bm, false)
          else
            -- the cache is full: the smallest round makes room
            let pending := bm.pendingCommitProofs.popFirst.insert round commitProof
            some ({ bm with pendingCommitProofs := pending }, true)
    else some ({ bm with pendingCommitProofs := bm.pendingCommitProofs.insert round commitProof }, true)
  else some (bm, false)

/-- `BufferManager::drain_pending_commit_proof_till`: `split_off(&(round + 1))`
and a swap keep the rounds above `round` and return the last of the others;
`none` is the panic of the u64 addition. -/
def drainPendingCommitProofTill (bm : BufferManager) (round : Nat) :
    Option (BufferManager × Option LedgerInfoWithSignatures) := do
  let bound ← Checked.add UInt64.size round 1
  let (toRemove, remainder) := bm.pendingCommitProofs.splitOff bound
  pure ({ bm with pendingCommitProofs := remainder }, toRemove.last?.map Prod.snd)

/-! ### The writers of the committed round -/

/-- The persisting phase's `Ok(round)` in `BufferManager::start`. -/
def persisted (bm : BufferManager) (round : Nat) : BufferManager :=
  let cache := bm.commitVoteCache.retain fun cachedRound => decide (round < cachedRound)
  { bm with commitVoteCache := cache, highestCommittedRound := round }

end BufferManager

/-- `ResetSignal`. -/
inductive ResetSignal where
  | stop
  | targetRound (round : Nat)
  deriving DecidableEq, Repr

namespace BufferManager

/-- `process_reset_request` with the `reset` it runs: a target round becomes
the committed round, and both caches are cleared. -/
def processResetRequest (bm : BufferManager) (signal : ResetSignal) : BufferManager :=
  let round := match signal with
    | .stop => bm.highestCommittedRound
    | .targetRound round => round
  { bm with highestCommittedRound := round, commitVoteCache := .empty, pendingCommitProofs := .empty }

end BufferManager

/-- The votes of a block in the order of their authors, one of the orders in
which `into_values` may yield them. -/
def inAuthorOrder (votes : SortedStore Author CommitVote) : List CommitVote := votes.entries.map Prod.snd

/-- The events of the buffer manager's loop that reach the two caches. -/
inductive Call where
  | cacheCommitVote (vote : CommitVote)
  | drainCachedCommitVotes (round : Nat) (blockId : HashValue)
  | tryAddPendingCommitProof (commitProof : LedgerInfoWithSignatures)
  | drainPendingCommitProofTill (round : Nat)
  | persisted (round : Nat)
  | reset (signal : ResetSignal)
  deriving DecidableEq, Repr

/-- What each event returns. -/
inductive Reply where
  | acked (ack : Bool)
  | votes (votes : List CommitVote)
  | commitProof (proof : Option LedgerInfoWithSignatures)
  | done
  deriving DecidableEq, Repr

namespace BufferManager

/-- One event; `none` is a panic. -/
def step (intoValues : SortedStore Author CommitVote → List CommitVote) (bm : BufferManager) :
    Call → Option (BufferManager × Reply)
  | .cacheCommitVote vote =>
      let result := bm.cacheCommitVote vote
      some (result.1, .acked result.2)
  | .drainCachedCommitVotes round blockId =>
      let result := bm.drainCachedCommitVotes intoValues round blockId
      some (result.1, .votes result.2)
  | .tryAddPendingCommitProof commitProof =>
      (bm.tryAddPendingCommitProof commitProof).map fun result => (result.1, .acked result.2)
  | .drainPendingCommitProofTill round =>
      (bm.drainPendingCommitProofTill round).map fun result => (result.1, .commitProof result.2)
  | .persisted round => some (bm.persisted round, .done)
  | .reset signal => some (bm.processResetRequest signal, .done)

end BufferManager


namespace BufferManager

/-! ### What each event does to the proof cache -/

section ProofCache

variable {bm bm' : BufferManager} {commitProof : LedgerInfoWithSignatures} {ack : Bool}

theorem tryAddPendingCommitProof_eq_some (h : bm.tryAddPendingCommitProof commitProof = some (bm', ack)) :
    (ack = false ∧ bm' = bm) ∨
    (ack = true ∧ bm.highestCommittedRound < commitProof.commitInfo.round ∧
      ((bm.pendingCommitProofs.entries.length < maxPendingCommitProofs ∧
          bm' = { bm with pendingCommitProofs :=
            bm.pendingCommitProofs.insert commitProof.commitInfo.round commitProof }) ∨
        (maxPendingCommitProofs ≤ bm.pendingCommitProofs.entries.length ∧
          ∃ oldestRound oldest, bm.pendingCommitProofs.first? = some (oldestRound, oldest) ∧
            oldestRound < commitProof.commitInfo.round ∧
            bm' = { bm with pendingCommitProofs :=
              bm.pendingCommitProofs.popFirst.insert commitProof.commitInfo.round commitProof }))) := by
  simp only [tryAddPendingCommitProof] at h
  split at h
  · rename_i above
    split at h
    · rename_i full
      split at h
      · cases h
      · rename_i oldestRound oldest first
        split at h
        · cases h
          exact .inl ⟨rfl, rfl⟩
        · rename_i newer
          cases h
          exact .inr ⟨rfl, above, .inr ⟨full, oldestRound, oldest, first, by omega, rfl⟩⟩
    · rename_i room
      cases h
      exact .inr ⟨rfl, above, .inl ⟨by omega, rfl⟩⟩
  · cases h
    exact .inl ⟨rfl, rfl⟩

/-- The `expect` of a full cache never fires: a full cache has a smallest round. -/
theorem tryAddPendingCommitProof_isSome (bm : BufferManager) (commitProof : LedgerInfoWithSignatures) :
    (bm.tryAddPendingCommitProof commitProof).isSome := by
  simp only [tryAddPendingCommitProof]
  split
  · split
    · rename_i full
      have nonempty : bm.pendingCommitProofs.first? ≠ none := by
        rw [Ne, SortedStore.first?_eq_none_iff]
        intro empty
        rw [empty] at full
        simp [maxPendingCommitProofs] at full
      obtain ⟨⟨oldestRound, oldest⟩, first⟩ := Option.ne_none_iff_exists'.mp nonempty
      simp only [first]
      split <;> rfl
    · rfl
  · rfl

theorem tryAddPendingCommitProof_length_le (h : bm.tryAddPendingCommitProof commitProof = some (bm', ack))
    (bounded : bm.pendingCommitProofs.entries.length ≤ maxPendingCommitProofs) :
    bm'.pendingCommitProofs.entries.length ≤ maxPendingCommitProofs := by
  rcases tryAddPendingCommitProof_eq_some h with ⟨-, rfl⟩ | ⟨-, -, ⟨room, rfl⟩ | ⟨full, -, -, -, -, rfl⟩⟩
  · exact bounded
  · have grown := SortedStore.length_insert_le bm.pendingCommitProofs commitProof.commitInfo.round commitProof
    dsimp only
    omega
  · -- the smallest round of a full cache leaves before the new one comes in
    have positive : 0 < maxPendingCommitProofs := by decide
    have popped := SortedStore.length_popFirst bm.pendingCommitProofs
    have grown := SortedStore.length_insert_le bm.pendingCommitProofs.popFirst
      commitProof.commitInfo.round commitProof
    dsimp only
    omega

theorem drainPendingCommitProofTill_eq_some {round : Nat} (fits : round + 1 < UInt64.size) :
    bm.drainPendingCommitProofTill round =
      some ({ bm with pendingCommitProofs := (bm.pendingCommitProofs.splitOff (round + 1)).2 },
        (bm.pendingCommitProofs.splitOff (round + 1)).1.last?.map Prod.snd) := by
  simp [drainPendingCommitProofTill, Checked.add, fits]

/-- Draining till a round below u64::MAX removes exactly the proofs of the
rounds up to it and returns the one of the largest of those rounds. -/
theorem drainPendingCommitProofTill_spec {round : Nat} {proof : Option LedgerInfoWithSignatures}
    (fits : round + 1 < UInt64.size) (h : bm.drainPendingCommitProofTill round = some (bm', proof)) :
    bm' = { bm with pendingCommitProofs := bm'.pendingCommitProofs } ∧
    (∀ r, bm'.pendingCommitProofs.get r = if round < r then bm.pendingCommitProofs.get r else none) ∧
    (proof = none ↔ ∀ r ≤ round, bm.pendingCommitProofs.get r = none) ∧
    (∀ p, proof = some p → ∃ r ≤ round, bm.pendingCommitProofs.get r = some p ∧
      ∀ r' ≤ round, (bm.pendingCommitProofs.get r').isSome → r' ≤ r) := by
  rw [drainPendingCommitProofTill_eq_some fits, Option.some.injEq, Prod.mk.injEq] at h
  obtain ⟨rfl, rfl⟩ := h
  have below : ∀ r, r < round + 1 ↔ r ≤ round := fun r => Nat.lt_succ_iff
  refine ⟨rfl, fun r => ?_, ?_, fun p found => ?_⟩
  · simp only [SortedStore.get_splitOff_snd]
    by_cases above : round < r
    · rw [if_pos (by omega), if_pos above]
    · rw [if_neg (by omega), if_neg above]
  · rw [Option.map_eq_none_iff, SortedStore.last?_eq_none_iff_get]
    simp only [SortedStore.get_splitOff_fst, below]
    constructor
    · intro absent r le
      simpa [le] using absent r
    · intro absent r
      by_cases le : r ≤ round
      · simp [le, absent r le]
      · simp [le]
  · obtain ⟨⟨r, p'⟩, last, rfl⟩ := Option.map_eq_some_iff.mp found
    obtain ⟨found, largest⟩ := SortedStore.last?_spec last
    simp only [SortedStore.get_splitOff_fst, below] at found largest
    by_cases le : r ≤ round
    · rw [if_pos le] at found
      refine ⟨r, le, found, fun r' le' present => largest r' ?_⟩
      simpa [le'] using present
    · simp [le] at found

/-- `round + 1` overflows at u64::MAX: draining till that round panics,
whatever the cache holds. -/
theorem drainPendingCommitProofTill_panics_at_max_round (bm : BufferManager) :
    bm.drainPendingCommitProofTill (UInt64.size - 1) = none := by
  simp [drainPendingCommitProofTill, Checked.add]

end ProofCache

/-! ### What each event does to the vote cache -/

/-- The votes cached for a block id of a round, by author. -/
def cachedVotes (bm : BufferManager) (round : Nat) (blockId : HashValue) :
    Option (SortedStore Author CommitVote) :=
  (bm.commitVoteCache.get round).bind fun roundCache => roundCache.get blockId

@[simp] theorem get_retainWindow (bm : BufferManager) (r : Nat) :
    bm.retainWindow.get r =
      if bm.highestCommittedRound < r ∧ r < bm.maxCachedRound then bm.commitVoteCache.get r else none := by
  simp [retainWindow]

section VoteCache

variable {bm bm' : BufferManager} {vote : CommitVote} {ack : Bool}

theorem cacheCommitVote_eq (h : bm.cacheCommitVote vote = (bm', ack)) :
    (vote.commitInfo.round ≤ bm.highestCommittedRound ∧ ack = true ∧
      bm' = { bm with commitVoteCache := bm.retainWindow }) ∨
    (bm.highestCommittedRound < vote.commitInfo.round ∧ bm.maxCachedRound ≤ vote.commitInfo.round ∧
      ack = false ∧ bm' = { bm with commitVoteCache := bm.retainWindow }) ∨
    (bm.highestCommittedRound < vote.commitInfo.round ∧ vote.commitInfo.round < bm.maxCachedRound ∧
      canCacheCommitVoteForBlock ((bm.commitVoteCache.get vote.commitInfo.round).getD .empty)
        vote.commitInfo.id vote.author = false ∧ ack = false ∧
      bm' = { bm with commitVoteCache := (bm.retainWindow.insert vote.commitInfo.round
        ((bm.commitVoteCache.get vote.commitInfo.round).getD .empty)) }) ∨
    (bm.highestCommittedRound < vote.commitInfo.round ∧ vote.commitInfo.round < bm.maxCachedRound ∧
      canCacheCommitVoteForBlock ((bm.commitVoteCache.get vote.commitInfo.round).getD .empty)
        vote.commitInfo.id vote.author = true ∧ ack = true ∧
      bm' = { bm with commitVoteCache := (bm.retainWindow.insert vote.commitInfo.round
        (addVote ((bm.commitVoteCache.get vote.commitInfo.round).getD .empty) vote.commitInfo.id vote)) }) := by
  simp only [cacheCommitVote] at h
  by_cases committed : vote.commitInfo.round ≤ bm.highestCommittedRound
  · simp only [classifyCommitVoteRound, committed, if_true, Prod.mk.injEq] at h
    obtain ⟨rfl, rfl⟩ := h
    exact .inl ⟨committed, rfl, rfl⟩
  · have above : bm.highestCommittedRound < vote.commitInfo.round := Nat.lt_of_not_le committed
    by_cases past : bm.maxCachedRound ≤ vote.commitInfo.round
    · simp only [classifyCommitVoteRound, committed, past, if_true, if_false, Prod.mk.injEq] at h
      obtain ⟨rfl, rfl⟩ := h
      exact .inr (.inl ⟨above, past, rfl, rfl⟩)
    · -- inside the window the retained round is the one the cache held
      have below : vote.commitInfo.round < bm.maxCachedRound := Nat.lt_of_not_le past
      have kept : bm.retainWindow.get vote.commitInfo.round = bm.commitVoteCache.get vote.commitInfo.round := by
        simp [above, below]
      simp only [classifyCommitVoteRound, committed, past, if_false, kept] at h
      cases canCache : canCacheCommitVoteForBlock ((bm.commitVoteCache.get vote.commitInfo.round).getD .empty)
          vote.commitInfo.id vote.author
      · simp only [canCache, Bool.not_false, if_true, Prod.mk.injEq] at h
        obtain ⟨rfl, rfl⟩ := h
        exact .inr (.inr (.inl ⟨above, below, rfl, rfl, rfl⟩))
      · simp only [canCache, Bool.not_true, Bool.false_eq_true, if_false, Prod.mk.injEq] at h
        obtain ⟨rfl, rfl⟩ := h
        exact .inr (.inr (.inr ⟨above, below, rfl, rfl, rfl⟩))

theorem cacheCommitVote_fst (bm : BufferManager) (vote : CommitVote) :
    (bm.cacheCommitVote vote).1 = { bm with commitVoteCache := (bm.cacheCommitVote vote).1.commitVoteCache } := by
  simp only [cacheCommitVote]
  split
  · rfl
  · rfl
  · split <;> rfl

theorem drainCachedCommitVotes_fst (intoValues : SortedStore Author CommitVote → List CommitVote)
    (bm : BufferManager) (round : Nat) (blockId : HashValue) :
    (bm.drainCachedCommitVotes intoValues round blockId).1 =
      { bm with commitVoteCache := (bm.drainCachedCommitVotes intoValues round blockId).1.commitVoteCache } := by
  simp only [drainCachedCommitVotes]
  split <;> rfl

theorem cacheCommitVote_window (h : bm.cacheCommitVote vote = (bm', ack)) {r : Nat}
    (cached : (bm'.commitVoteCache.get r).isSome) :
    bm.highestCommittedRound < r ∧ r < bm.maxCachedRound := by
  have kept : ∀ r, (bm.retainWindow.get r).isSome → bm.highestCommittedRound < r ∧ r < bm.maxCachedRound := by
    intro r present
    rw [get_retainWindow] at present
    split at present
    · assumption
    · cases present
  -- the round the vote opens is inside the window too
  have opened : ∀ roundCache, bm.highestCommittedRound < vote.commitInfo.round →
      vote.commitInfo.round < bm.maxCachedRound →
      ((bm.retainWindow.insert vote.commitInfo.round roundCache).get r).isSome →
      bm.highestCommittedRound < r ∧ r < bm.maxCachedRound := by
    intro roundCache above below present
    rw [SortedStore.get_insert] at present
    by_cases hr : r = vote.commitInfo.round
    · exact hr ▸ ⟨above, below⟩
    · rw [if_neg hr] at present
      exact kept r present
  rcases cacheCommitVote_eq h with ⟨-, -, rfl⟩ | ⟨-, -, -, rfl⟩ | ⟨above, below, -, -, rfl⟩ |
      ⟨above, below, -, -, rfl⟩
  · exact kept r cached
  · exact kept r cached
  · exact opened _ above below cached
  · exact opened _ above below cached

theorem cacheCommitVote_acked (h : bm.cacheCommitVote vote = (bm', ack)) :
    ack = true ↔ vote.commitInfo.round ≤ bm.highestCommittedRound ∨
      (bm'.cachedVotes vote.commitInfo.round vote.commitInfo.id).bind (·.get vote.author) = some vote := by
  rcases cacheCommitVote_eq h with ⟨committed, rfl, -⟩ | ⟨above, past, rfl, rfl⟩ |
      ⟨above, below, refused, rfl, rfl⟩ | ⟨-, -, -, rfl, rfl⟩
  · simp [committed]
  · -- a round past the window is not kept
    have gone : bm.retainWindow.get vote.commitInfo.round = none := by
      simp [Nat.not_lt.mpr past]
    simp [cachedVotes, gone, Nat.not_le.mpr above]
  · -- a refused vote would have opened a block id the round does not hold
    have absent : ((bm.commitVoteCache.get vote.commitInfo.round).getD .empty).get vote.commitInfo.id = none := by
      unfold canCacheCommitVoteForBlock at refused
      split at refused
      · cases refused
      · rename_i notHeld
        simpa using notHeld
    simp [cachedVotes, absent, Nat.not_le.mpr above]
  · simp [cachedVotes, addVote]

theorem roundCache_cacheCommitVote (h : bm.cacheCommitVote vote = (bm', ack)) {r : Nat}
    {roundCache : RoundCache} (found : bm'.commitVoteCache.get r = some roundCache) :
    bm.commitVoteCache.get r = some roundCache ∨ roundCache.entries = [] ∨
    (r = vote.commitInfo.round ∧ ack = true ∧
      canCacheCommitVoteForBlock ((bm.commitVoteCache.get r).getD .empty) vote.commitInfo.id vote.author = true ∧
      roundCache = addVote ((bm.commitVoteCache.get r).getD .empty) vote.commitInfo.id vote) := by
  have kept : ∀ r, bm.retainWindow.get r = some roundCache → bm.commitVoteCache.get r = some roundCache := by
    intro r present
    rw [get_retainWindow] at present
    split at present
    · exact present
    · cases present
  rcases cacheCommitVote_eq h with ⟨-, -, rfl⟩ | ⟨-, -, -, rfl⟩ | ⟨-, -, -, -, rfl⟩ | ⟨-, -, canCache, rfl, rfl⟩
  · exact .inl (kept r found)
  · exact .inl (kept r found)
  · -- the entry `or_default` opened is the one the cache held, or empty
    simp only [SortedStore.get_insert] at found
    split at found
    · rename_i hr
      subst hr
      cases held : bm.commitVoteCache.get vote.commitInfo.round with
      | none =>
          rw [held, Option.getD_none, Option.some.injEq] at found
          exact .inr (.inl (found ▸ rfl))
      | some held' =>
          rw [held, Option.getD_some, Option.some.injEq] at found
          exact .inl (found ▸ rfl)
    · exact .inl (kept r found)
  · simp only [SortedStore.get_insert] at found
    split at found
    · rename_i hr
      subst hr
      exact .inr (.inr ⟨rfl, rfl, canCache, (Option.some.inj found).symm⟩)
    · exact .inl (kept r found)

theorem roundCache_drainCachedCommitVotes {intoValues : SortedStore Author CommitVote → List CommitVote}
    {round : Nat} {blockId : HashValue} {votes : List CommitVote}
    (h : bm.drainCachedCommitVotes intoValues round blockId = (bm', votes)) {r : Nat} {roundCache : RoundCache}
    (found : bm'.commitVoteCache.get r = some roundCache) :
    bm.commitVoteCache.get r = some roundCache ∨
    (r = round ∧ ∃ held, bm.commitVoteCache.get r = some held ∧ roundCache = held.erase blockId) := by
  simp only [drainCachedCommitVotes] at h
  split at h
  · rename_i held heldAt
    rw [Prod.mk.injEq] at h
    obtain ⟨rfl, -⟩ := h
    dsimp only at found
    split at found
    · rw [SortedStore.get_erase] at found
      split at found
      · cases found
      · exact .inl found
    · rw [SortedStore.get_insert] at found
      split at found
      · rename_i hr
        subst hr
        exact .inr ⟨rfl, held, heldAt, (Option.some.inj found).symm⟩
      · exact .inl found
  · rw [Prod.mk.injEq] at h
    obtain ⟨rfl, -⟩ := h
    exact .inl found

end VoteCache

end BufferManager

end GravitySdk.Pipeline
