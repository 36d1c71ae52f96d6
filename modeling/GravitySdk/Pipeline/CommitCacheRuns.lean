/- The buffer manager's commit caches over whole runs.
   digest: Any sequence of the events of Pipeline/CommitCaches.lean keeps
   the pending proof cache within MAX_PENDING_COMMIT_PROOFS, and keeps the
   vote cache bounded: run beside the manager, a record of the author whose
   vote opened each block id shows that every block id holds its opener's
   vote and that an author opens at most two block ids of a round, so a
   round holds at most twice as many block ids as it has voters. -/

import Mathlib
import GravitySdk.Pipeline.CommitCaches
import GravitySdk.Lib.Transition

set_option autoImplicit false
set_option relaxedAutoImplicit false

namespace GravitySdk.Pipeline

open GravitySdk.Lib GravitySdk.Lib.Transition GravitySdk.Consensus

namespace BufferManager

variable {intoValues : SortedStore Author CommitVote → List CommitVote}

/-! ### Frames -/

theorem tryAddPendingCommitProof_frame {bm bm' : BufferManager} {commitProof : LedgerInfoWithSignatures}
    {ack : Bool} (h : bm.tryAddPendingCommitProof commitProof = some (bm', ack)) :
    bm'.commitVoteCache = bm.commitVoteCache ∧ bm'.highestCommittedRound = bm.highestCommittedRound := by
  rcases tryAddPendingCommitProof_eq_some h with ⟨-, rfl⟩ | ⟨-, -, ⟨-, rfl⟩ | ⟨-, -, -, -, -, rfl⟩⟩ <;>
    exact ⟨rfl, rfl⟩

theorem drainPendingCommitProofTill_frame {bm bm' : BufferManager} {round : Nat}
    {proof : Option LedgerInfoWithSignatures} (h : bm.drainPendingCommitProofTill round = some (bm', proof)) :
    bm'.commitVoteCache = bm.commitVoteCache ∧ bm'.highestCommittedRound = bm.highestCommittedRound ∧
      bm'.pendingCommitProofs.entries.length ≤ bm.pendingCommitProofs.entries.length := by
  simp only [drainPendingCommitProofTill] at h
  cases fits : Checked.add UInt64.size round 1 with
  | none => simp [fits] at h
  | some bound =>
      simp only [fits, Option.bind_eq_bind, Option.bind_some, Option.pure_def, Option.some.injEq,
        Prod.mk.injEq] at h
      obtain ⟨rfl, -⟩ := h
      exact ⟨rfl, rfl, SortedStore.length_retain_le _ _⟩

/-! ### The proof cache stays within its bound -/

theorem step_pendingCommitProofs_length_le {bm bm' : BufferManager} {c : Call} {reply : Reply}
    (h : bm.step intoValues c = some (bm', reply))
    (bounded : bm.pendingCommitProofs.entries.length ≤ maxPendingCommitProofs) :
    bm'.pendingCommitProofs.entries.length ≤ maxPendingCommitProofs := by
  cases c with
  | cacheCommitVote vote =>
      obtain ⟨rfl, -⟩ := Prod.mk.inj (Option.some.inj h)
      rw [cacheCommitVote_fst]
      exact bounded
  | drainCachedCommitVotes round blockId =>
      obtain ⟨rfl, -⟩ := Prod.mk.inj (Option.some.inj h)
      rw [drainCachedCommitVotes_fst]
      exact bounded
  | tryAddPendingCommitProof commitProof =>
      obtain ⟨⟨bm'', ack⟩, taken, same⟩ := Option.map_eq_some_iff.mp h
      obtain ⟨rfl, -⟩ := Prod.mk.inj same
      exact tryAddPendingCommitProof_length_le taken bounded
  | drainPendingCommitProofTill round =>
      obtain ⟨⟨bm'', proof⟩, drained, same⟩ := Option.map_eq_some_iff.mp h
      obtain ⟨rfl, -⟩ := Prod.mk.inj same
      exact le_trans (drainPendingCommitProofTill_frame drained).2.2 bounded
  | persisted round =>
      obtain ⟨rfl, -⟩ := Prod.mk.inj (Option.some.inj h)
      exact bounded
  | reset signal =>
      obtain ⟨rfl, -⟩ := Prod.mk.inj (Option.some.inj h)
      exact Nat.zero_le _

/-- Along any run from a state within the bound, the proof cache never holds
more than `MAX_PENDING_COMMIT_PROOFS` proofs. -/
theorem pendingCommitProofs_length_le_of_trace {allow : BufferManager → Call → Prop}
    {bm₀ bm : BufferManager} {evs : List (Call × Reply)} (run : Trace (step intoValues) allow bm₀ evs bm)
    (bounded : bm₀.pendingCommitProofs.entries.length ≤ maxPendingCommitProofs) :
    bm.pendingCommitProofs.entries.length ≤ maxPendingCommitProofs :=
  Trace.invariant (fun bm _ => bm.pendingCommitProofs.entries.length ≤ maxPendingCommitProofs) bounded
    (fun _ _ _ _ _ kept _ stepped => step_pendingCommitProofs_length_le stepped kept) run

/-- The caller's contract on draining: `process_execution_response` drains
till the round of a block the node executed, which is below u64::MAX. -/
def DrainsBelowMax (_ : BufferManager) : Call → Prop
  | .drainPendingCommitProofTill round => round + 1 < UInt64.size
  | _ => True

/-- The contract as a test on the call. -/
def drainsBelowMaxCheck (_ : BufferManager) : Call → Bool
  | .drainPendingCommitProofTill round => decide (round + 1 < UInt64.size)
  | _ => true

theorem drainsBelowMax_of_check {bm : BufferManager} {c : Call} (h : drainsBelowMaxCheck bm c = true) :
    DrainsBelowMax bm c := by
  cases c <;> simp_all [drainsBelowMaxCheck, DrainsBelowMax]

/-- What the pending proof cache of a state guarantees: it is within its
bound; an insertion completes, and is accepted only for a round above the
committed one, once full only in place of the smallest round and only when
that round is below the new one; a drain till a round below u64::MAX
completes, keeps exactly the rounds above it, and returns the proof of the
greatest round up to it. -/
structure ProofCacheLaws (bm : BufferManager) : Prop where
  bounded : bm.pendingCommitProofs.entries.length ≤ maxPendingCommitProofs
  tryAdd : ∀ commitProof, ∃ bm' ack, bm.tryAddPendingCommitProof commitProof = some (bm', ack) ∧
    ((ack = false ∧ bm' = bm) ∨
      (ack = true ∧ bm.highestCommittedRound < commitProof.commitInfo.round ∧
        ((bm.pendingCommitProofs.entries.length < maxPendingCommitProofs ∧
            bm' = { bm with pendingCommitProofs :=
              bm.pendingCommitProofs.insert commitProof.commitInfo.round commitProof }) ∨
          (maxPendingCommitProofs ≤ bm.pendingCommitProofs.entries.length ∧
            ∃ oldestRound oldest, bm.pendingCommitProofs.first? = some (oldestRound, oldest) ∧
              oldestRound < commitProof.commitInfo.round ∧
              bm' = { bm with pendingCommitProofs :=
                bm.pendingCommitProofs.popFirst.insert commitProof.commitInfo.round commitProof }))))
  drain : ∀ round, round + 1 < UInt64.size → ∃ bm' proof, bm.drainPendingCommitProofTill round = some (bm', proof) ∧
    (∀ r, bm'.pendingCommitProofs.get r = if round < r then bm.pendingCommitProofs.get r else none) ∧
    (proof = none ↔ ∀ r ≤ round, bm.pendingCommitProofs.get r = none) ∧
    (∀ p, proof = some p → ∃ r ≤ round, bm.pendingCommitProofs.get r = some p ∧
      ∀ r' ≤ round, (bm.pendingCommitProofs.get r').isSome → r' ≤ r)

/-- Along every run from `BufferManager::new` whose drains keep to the
contract, every state keeps the laws of the pending proof cache. -/
theorem pendingCommitProofs_laws_of_run {highestCommittedRound maxPendingRounds : Nat}
    {evs : List (Call × Reply)} {bm : BufferManager}
    (run : Trace (step intoValues) DrainsBelowMax (new highestCommittedRound maxPendingRounds) evs bm) :
    ProofCacheLaws bm := by
  have bounded : bm.pendingCommitProofs.entries.length ≤ maxPendingCommitProofs :=
    pendingCommitProofs_length_le_of_trace run (Nat.zero_le _)
  refine ⟨bounded, fun commitProof => ?_, fun round fits => ?_⟩
  · obtain ⟨⟨bm', ack⟩, added⟩ := Option.isSome_iff_exists.mp (tryAddPendingCommitProof_isSome bm commitProof)
    exact ⟨bm', ack, added, tryAddPendingCommitProof_eq_some added⟩
  · have drained : bm.drainPendingCommitProofTill round = _ := drainPendingCommitProofTill_eq_some fits
    obtain ⟨-, kept, none, greatest⟩ := drainPendingCommitProofTill_spec fits drained
    exact ⟨_, _, drained, kept, none, greatest⟩

/-- Four proofs offered above committed round 2, one of them at round 2, then
a drain till round 4: the proof of round 4 comes back and round 5 stays. -/
theorem pendingCommitProofs_laws_after_drain :
    let proofAt : Nat → LedgerInfoWithSignatures := fun r => ⟨⟨⟨1, r, r, 0, 0, 0, none⟩, 0⟩, []⟩
    let calls : List Call :=
      [.tryAddPendingCommitProof (proofAt 3), .tryAddPendingCommitProof (proofAt 5),
        .tryAddPendingCommitProof (proofAt 4), .tryAddPendingCommitProof (proofAt 2), .drainPendingCommitProofTill 4]
    ∃ bm, runChecked (step inAuthorOrder) drainsBelowMaxCheck (new 2 20) calls =
        some (bm, [.acked true, .acked true, .acked true, .acked false, .commitProof (some (proofAt 4))]) ∧
      bm.pendingCommitProofs.entries.map Prod.fst = [5] ∧ ProofCacheLaws bm := by
  intro proofAt calls
  have shape : (runChecked (step inAuthorOrder) drainsBelowMaxCheck (new 2 20) calls).map
      (fun p => (p.2, p.1.pendingCommitProofs.entries.map Prod.fst)) =
      some ([.acked true, .acked true, .acked true, .acked false, .commitProof (some (proofAt 4))], [5]) := by
    decide +kernel
  obtain ⟨⟨bm, rs⟩, ran, holds⟩ := Option.map_eq_some_iff.mp shape
  obtain ⟨rfl, five⟩ := Prod.mk.inj holds
  exact ⟨bm, ran, five,
    pendingCommitProofs_laws_of_run (Trace.of_runChecked (fun _ _ _ h => drainsBelowMax_of_check h) ran)⟩

/-! ### Who opened each block id -/

/-- For each round and block id, the author whose vote opened the block id's
entry. -/
abbrev Openers := Nat → HashValue → Author

/-- The record of openers after an event: a commit vote that finds its block
id absent from its round and leaves it present has opened it. -/
def noteOpener (bm : BufferManager) (c : Call) (opener : Openers) : Openers :=
  match c with
  | .cacheCommitVote vote =>
      if (bm.cachedVotes vote.commitInfo.round vote.commitInfo.id).isNone ∧
          ((bm.cacheCommitVote vote).1.cachedVotes vote.commitInfo.round vote.commitInfo.id).isSome then
        fun r b => if r = vote.commitInfo.round ∧ b = vote.commitInfo.id then vote.author else opener r b
      else opener
  | _ => opener

/-- The manager run together with its record of openers. -/
def stepOpened (intoValues : SortedStore Author CommitVote → List CommitVote) (g : BufferManager × Openers) (c : Call) : Option ((BufferManager × Openers) × Reply) :=
  (g.1.step intoValues c).map fun result => ((result.1, noteOpener g.1 c g.2), result.2)

/-- Every run of the manager is the first half of a run that records its
openers. -/
theorem trace_opened {allow : BufferManager → Call → Prop} {bm₀ bm : BufferManager}
    {evs : List (Call × Reply)} (run : Trace (step intoValues) allow bm₀ evs bm) (opener₀ : Openers) :
    ∃ opener, Trace (stepOpened intoValues) (fun g c => allow g.1 c) (bm₀, opener₀) evs (bm, opener) := by
  induction run with
  | nil => exact ⟨opener₀, .nil _⟩
  | @snoc before _ _ c _ _ allowed stepped ih =>
      obtain ⟨opener, recorded⟩ := ih
      exact ⟨noteOpener before c opener, .snoc recorded allowed (by simp [stepOpened, stepped])⟩

/-- The authors with a vote in a round. -/
def votersOf (roundCache : RoundCache) : Finset Author :=
  (roundCache.entries.flatMap fun e => e.2.entries.map Prod.fst).toFinset

/-- A round whose block ids each hold the vote of their opener, no author
having opened more than two of them. -/
structure RoundOpenedBy (opener : HashValue → Author) (roundCache : RoundCache) : Prop where
  holdsOpenerVote : ∀ b votes, roundCache.get b = some votes → (votes.get (opener b)).isSome
  openedAtMostTwice : ∀ a,
    (roundCache.entries.filter fun e => opener e.1 = a).length ≤ maxCachedBlockIdsPerAuthorPerCommitVoteRound

namespace RoundOpenedBy

variable {opener : HashValue → Author} {roundCache : RoundCache}

theorem of_nil (empty : roundCache.entries = []) : RoundOpenedBy opener roundCache where
  holdsOpenerVote b votes found := by
    have listed := SortedStore.mem_entries_of_get found
    rw [empty] at listed
    cases listed
  openedAtMostTwice a := by simp [empty]

theorem congr {opener' : HashValue → Author} (opened : RoundOpenedBy opener roundCache)
    (same : ∀ b, (roundCache.get b).isSome → opener' b = opener b) : RoundOpenedBy opener' roundCache where
  holdsOpenerVote b votes found := by
    rw [same b (by simp [found])]
    exact opened.holdsOpenerVote b votes found
  openedAtMostTwice a := by
    have listed : ∀ e ∈ roundCache.entries, decide (opener' e.1 = a) = decide (opener e.1 = a) := by
      intro e he
      rw [same e.1 (by simp [SortedStore.get_eq_some_iff.mpr he])]
    rw [List.filter_congr listed]
    exact opened.openedAtMostTwice a

theorem erase (opened : RoundOpenedBy opener roundCache) (blockId : HashValue) :
    RoundOpenedBy opener (roundCache.erase blockId) where
  holdsOpenerVote b votes found := by
    rw [SortedStore.get_erase] at found
    split at found
    · cases found
    · exact opened.holdsOpenerVote b votes found
  openedAtMostTwice a := by
    have kept : List.Sublist (roundCache.erase blockId).entries roundCache.entries := List.filter_sublist
    exact le_trans (kept.filter _).length_le (opened.openedAtMostTwice a)

theorem opened_le_holding (opened : RoundOpenedBy opener roundCache) (a : Author) :
    (roundCache.entries.filter fun e => opener e.1 = a).length ≤
      (roundCache.entries.filter fun e => (e.2.get a).isSome).length := by
  rw [← List.countP_eq_length_filter, ← List.countP_eq_length_filter]
  apply List.countP_mono_left
  intro e he byA
  have holds := opened.holdsOpenerVote e.1 e.2 (SortedStore.get_eq_some_iff.mpr he)
  rw [of_decide_eq_true byA] at holds
  exact holds

theorem length_filter_addVote (opener : HashValue → Author) (roundCache : RoundCache) (blockId : HashValue)
    (vote : CommitVote) (a : Author) :
    ((BufferManager.addVote roundCache blockId vote).entries.filter fun e =>
        (if (roundCache.get blockId).isNone ∧ e.1 = blockId then vote.author else opener e.1) = a).length =
      (roundCache.entries.filter fun e => opener e.1 = a).length +
        (if (roundCache.get blockId).isNone ∧ vote.author = a then 1 else 0) := by
  have counted := SortedStore.length_filter_insert roundCache blockId
    (((roundCache.get blockId).getD .empty).insert vote.author vote) fun b =>
      decide ((if (roundCache.get blockId).isNone ∧ b = blockId then vote.author else opener b) = a)
  -- on the block ids already there, the new record agrees with the old one
  have before : (roundCache.entries.filter fun e =>
        decide ((if (roundCache.get blockId).isNone ∧ e.1 = blockId then vote.author else opener e.1) = a)) =
      roundCache.entries.filter fun e => decide (opener e.1 = a) := by
    apply List.filter_congr
    intro e he
    have present : roundCache.get e.1 = some e.2 := SortedStore.get_eq_some_iff.mpr he
    by_cases fresh : (roundCache.get blockId).isNone ∧ e.1 = blockId
    · rw [← fresh.2, present] at fresh
      simp at fresh
    · simp only [fresh, if_false]
  rw [before] at counted
  unfold BufferManager.addVote
  cases held : roundCache.get blockId with
  | some old =>
      simp only [held, Option.isSome_some, Option.isNone_some, Bool.false_eq_true, false_and, if_false,
        true_and] at counted ⊢
      omega
  | none =>
      simp only [held, Option.isSome_none, Option.isNone_none, Bool.false_eq_true, false_and, if_false,
        true_and] at counted ⊢
      by_cases author : vote.author = a <;> simp [author] at counted ⊢ <;> omega

theorem addVote (opened : RoundOpenedBy opener roundCache) {blockId : HashValue} {vote : CommitVote}
    (canCache : canCacheCommitVoteForBlock roundCache blockId vote.author = true) :
    RoundOpenedBy (fun b => if (roundCache.get blockId).isNone ∧ b = blockId then vote.author else opener b)
      (BufferManager.addVote roundCache blockId vote) where
  holdsOpenerVote b votes found := by
    simp only [BufferManager.addVote, SortedStore.get_insert] at found
    split at found
    · rename_i hb
      subst hb
      rw [← Option.some.inj found]
      cases held : roundCache.get b with
      | none => simp
      | some old =>
          -- the opener's vote stays beside the new one
          have kept := opened.holdsOpenerVote b old held
          simp only [Option.isNone_some, Bool.false_eq_true, false_and, if_false, Option.getD_some,
            SortedStore.get_insert]
          split
          · rfl
          · exact kept
    · rename_i hb
      simp only [hb, and_false, if_false]
      exact opened.holdsOpenerVote b votes found
  openedAtMostTwice a := by
    rw [length_filter_addVote]
    have bounded := opened.openedAtMostTwice a
    cases held : roundCache.get blockId with
    | some old => simpa using bounded
    | none =>
        -- a new block id: its author held fewer than two before it
        have room : (roundCache.entries.filter fun e => (e.2.get vote.author).isSome).length <
            maxCachedBlockIdsPerAuthorPerCommitVoteRound := by
          simpa [canCacheCommitVoteForBlock, held] using canCache
        have fewer := opened.opened_le_holding vote.author
        by_cases author : vote.author = a
        · subst author
          simp only [Option.isNone_none, true_and, if_true]
          omega
        · simpa [author] using bounded

theorem length_le (opened : RoundOpenedBy opener roundCache) :
    roundCache.entries.length ≤ maxCachedBlockIdsPerAuthorPerCommitVoteRound * (votersOf roundCache).card := by
  have nodup := SortedStore.keys_nodup roundCache
  have keys : (roundCache.entries.map Prod.fst).toFinset.card = roundCache.entries.length := by
    rw [List.toFinset_card_of_nodup nodup, List.length_map]
  rw [← keys]
  apply Finset.card_le_mul_card_image_of_maps_to
  · intro b hb
    obtain ⟨⟨b', votes⟩, he, rfl⟩ := List.mem_map.mp (List.mem_toFinset.mp hb)
    obtain ⟨v, found⟩ := Option.isSome_iff_exists.mp
      (opened.holdsOpenerVote b' votes (SortedStore.get_eq_some_iff.mpr he))
    simp only [votersOf, List.mem_toFinset, List.mem_flatMap, List.mem_map]
    exact ⟨(b', votes), he, (opener b', v), SortedStore.mem_entries_of_get found, rfl⟩
  · intro a _
    calc ((roundCache.entries.map Prod.fst).toFinset.filter fun b => opener b = a).card
        = (((roundCache.entries.map Prod.fst).filter fun b => opener b = a).toFinset).card := by
          rw [List.filter_toFinset]
      _ ≤ ((roundCache.entries.map Prod.fst).filter fun b => opener b = a).length := List.toFinset_card_le _
      _ = (roundCache.entries.filter fun e => opener e.1 = a).length := by
          rw [List.filter_map, List.length_map]
          rfl
      _ ≤ maxCachedBlockIdsPerAuthorPerCommitVoteRound := opened.openedAtMostTwice a

end RoundOpenedBy

/-! ### Every event keeps the rounds opened by the record -/

/-- Every round of the vote cache is opened by the record. -/
def OpenedBy (bm : BufferManager) (opener : Openers) : Prop :=
  ∀ r roundCache, bm.commitVoteCache.get r = some roundCache → RoundOpenedBy (opener r) roundCache

section OpenedBy

variable {bm bm' : BufferManager} {opener : Openers}

theorem openedBy_new (highestCommittedRound maxPendingRounds : Nat) (opener : Openers) :
    OpenedBy (new highestCommittedRound maxPendingRounds) opener := by
  intro r roundCache found
  simp [new] at found

theorem OpenedBy.cacheCommitVote (opened : OpenedBy bm opener) (vote : CommitVote) :
    OpenedBy (bm.cacheCommitVote vote).1 (noteOpener bm (.cacheCommitVote vote) opener) := by
  intro r roundCache found
  have result : bm.cacheCommitVote vote = ((bm.cacheCommitVote vote).1, (bm.cacheCommitVote vote).2) := rfl
  rcases roundCache_cacheCommitVote result found with held | empty | ⟨rfl, -, canCache, rfl⟩
  · -- a round the cache held: the vote opened none of its block ids
    apply (opened r roundCache held).congr
    intro b present
    simp only [noteOpener]
    split
    · rename_i fresh
      by_cases same : r = vote.commitInfo.round ∧ b = vote.commitInfo.id
      · obtain ⟨rfl, rfl⟩ := same
        have before : bm.cachedVotes vote.commitInfo.round vote.commitInfo.id = roundCache.get vote.commitInfo.id := by
          simp [cachedVotes, held]
        rw [before] at fresh
        simp [Option.isSome_iff_ne_none.mp present] at fresh
      · simp [same]
    · rfl
  · exact RoundOpenedBy.of_nil empty
  · -- the round of the vote: the record names its author for a block id it opens
    generalize hb : (bm.commitVoteCache.get vote.commitInfo.round).getD SortedStore.empty = before at canCache found ⊢
    have openedBefore : RoundOpenedBy (opener vote.commitInfo.round) before := by
      cases held : bm.commitVoteCache.get vote.commitInfo.round with
      | none =>
          rw [held, Option.getD_none] at hb
          exact RoundOpenedBy.of_nil (hb ▸ rfl)
      | some held' =>
          rw [held, Option.getD_some] at hb
          exact hb ▸ opened _ _ held
    have beforeAt : bm.cachedVotes vote.commitInfo.round vote.commitInfo.id = before.get vote.commitInfo.id := by
      rw [← hb]
      cases held : bm.commitVoteCache.get vote.commitInfo.round <;> simp [cachedVotes, held]
    have afterAt : ((bm.cacheCommitVote vote).1.cachedVotes vote.commitInfo.round vote.commitInfo.id).isSome := by
      simp [cachedVotes, found, BufferManager.addVote]
    have recorded : noteOpener bm (.cacheCommitVote vote) opener vote.commitInfo.round = fun b =>
        if (before.get vote.commitInfo.id).isNone ∧ b = vote.commitInfo.id then vote.author
        else opener vote.commitInfo.round b := by
      funext b
      simp only [noteOpener, beforeAt, afterAt, and_true]
      by_cases fresh : (before.get vote.commitInfo.id).isNone <;> simp [fresh]
    rw [recorded]
    exact openedBefore.addVote canCache

theorem OpenedBy.drainCachedCommitVotes (opened : OpenedBy bm opener) (round : Nat) (blockId : HashValue) :
    OpenedBy (bm.drainCachedCommitVotes intoValues round blockId).1 opener := by
  intro r roundCache found
  have result : bm.drainCachedCommitVotes intoValues round blockId =
      ((bm.drainCachedCommitVotes intoValues round blockId).1, (bm.drainCachedCommitVotes intoValues round blockId).2) := rfl
  rcases roundCache_drainCachedCommitVotes result found with held | ⟨-, held, heldAt, rfl⟩
  · exact opened r roundCache held
  · exact (opened r held heldAt).erase blockId

theorem OpenedBy.persisted (opened : OpenedBy bm opener) (round : Nat) :
    OpenedBy (bm.persisted round) opener := by
  intro r roundCache found
  simp only [BufferManager.persisted, SortedStore.get_retain] at found
  split at found
  · exact opened r roundCache found
  · cases found

theorem OpenedBy.of_commitVoteCache (opened : OpenedBy bm opener) (same : bm'.commitVoteCache = bm.commitVoteCache) :
    OpenedBy bm' opener := by
  intro r roundCache found
  rw [same] at found
  exact opened r roundCache found

theorem OpenedBy.step (opened : OpenedBy bm opener) {c : Call} {reply : Reply}
    (h : bm.step intoValues c = some (bm', reply)) : OpenedBy bm' (noteOpener bm c opener) := by
  cases c with
  | cacheCommitVote vote =>
      obtain ⟨rfl, -⟩ := Prod.mk.inj (Option.some.inj h)
      exact opened.cacheCommitVote vote
  | drainCachedCommitVotes round blockId =>
      obtain ⟨rfl, -⟩ := Prod.mk.inj (Option.some.inj h)
      exact opened.drainCachedCommitVotes round blockId
  | tryAddPendingCommitProof commitProof =>
      obtain ⟨⟨bm'', ack⟩, taken, same⟩ := Option.map_eq_some_iff.mp h
      obtain ⟨rfl, -⟩ := Prod.mk.inj same
      exact opened.of_commitVoteCache (tryAddPendingCommitProof_frame taken).1
  | drainPendingCommitProofTill round =>
      obtain ⟨⟨bm'', proof⟩, drained, same⟩ := Option.map_eq_some_iff.mp h
      obtain ⟨rfl, -⟩ := Prod.mk.inj same
      exact opened.of_commitVoteCache (drainPendingCommitProofTill_frame drained).1
  | persisted round =>
      obtain ⟨rfl, -⟩ := Prod.mk.inj (Option.some.inj h)
      exact opened.persisted round
  | reset signal =>
      obtain ⟨rfl, -⟩ := Prod.mk.inj (Option.some.inj h)
      intro r roundCache found
      simp [processResetRequest] at found

/-- Along any run that records its openers, every round stays opened by the
record. -/
theorem openedBy_of_trace {allow : BufferManager × Openers → Call → Prop} {g₀ g : BufferManager × Openers}
    {evs : List (Call × Reply)} (run : Trace (stepOpened intoValues) allow g₀ evs g) (opened : OpenedBy g₀.1 g₀.2) :
    OpenedBy g.1 g.2 :=
  Trace.invariant (fun g _ => OpenedBy g.1 g.2) opened
    (fun g _ _ _ _ kept _ stepped => by
      obtain ⟨⟨bm', reply⟩, stepped', same⟩ := Option.map_eq_some_iff.mp stepped
      obtain ⟨rfl, -⟩ := Prod.mk.inj same
      exact kept.step stepped') run

end OpenedBy

/-! ### The bound -/

/-- What the vote cache keeps in every state of a run, `opener` being the
record of openers along it: every block id holds its opener's vote, an author
opened at most two block ids of a round, and a round has at most two block ids
per author with a vote in it. -/
structure VotesBounded (bm : BufferManager) (opener : Openers) : Prop where
  holdsOpenerVote : ∀ r roundCache b votes, bm.commitVoteCache.get r = some roundCache →
    roundCache.get b = some votes → (votes.get (opener r b)).isSome
  openedAtMostTwice : ∀ r roundCache a, bm.commitVoteCache.get r = some roundCache →
    (roundCache.entries.filter fun e => opener r e.1 = a).length ≤ maxCachedBlockIdsPerAuthorPerCommitVoteRound
  blockIdsBounded : ∀ r roundCache, bm.commitVoteCache.get r = some roundCache →
    roundCache.entries.length ≤ maxCachedBlockIdsPerAuthorPerCommitVoteRound * (votersOf roundCache).card

/-- What `cache_commit_vote` guarantees of the cache it leaves and of its ack:
every cached round lies in the window it computed, and the ack says that the
round is committed or the vote is cached. -/
structure VoteCached (bm : BufferManager) (vote : CommitVote) (bm' : BufferManager) (ack : Bool) : Prop where
  window : ∀ r, (bm'.commitVoteCache.get r).isSome → bm.highestCommittedRound < r ∧ r < bm.maxCachedRound
  acked : ack = true ↔ vote.commitInfo.round ≤ bm.highestCommittedRound ∨
    (bm'.cachedVotes vote.commitInfo.round vote.commitInfo.id).bind (·.get vote.author) = some vote

theorem OpenedBy.votesBounded {bm : BufferManager} {opener : Openers} (opened : OpenedBy bm opener) :
    VotesBounded bm opener where
  holdsOpenerVote r roundCache b votes found := (opened r roundCache found).holdsOpenerVote b votes
  openedAtMostTwice r roundCache a found := (opened r roundCache found).openedAtMostTwice a
  blockIdsBounded r roundCache found := (opened r roundCache found).length_le

theorem voteCached_of_cacheCommitVote {bm bm' : BufferManager} {vote : CommitVote} {ack : Bool}
    (h : bm.cacheCommitVote vote = (bm', ack)) : VoteCached bm vote bm' ack where
  window _ cached := cacheCommitVote_window h cached
  acked := cacheCommitVote_acked h

theorem commitVoteCache_bounded {highestCommittedRound maxPendingRounds : Nat} {evs : List (Call × Reply)}
    {bm : BufferManager}
    (run : Trace (step intoValues) (fun _ _ => True) (new highestCommittedRound maxPendingRounds) evs bm) :
    (∃ opener, Trace (stepOpened intoValues) (fun _ _ => True) (new highestCommittedRound maxPendingRounds, fun _ _ => 0)
        evs (bm, opener) ∧ VotesBounded bm opener) ∧
      ∀ vote bm' ack, bm.cacheCommitVote vote = (bm', ack) → VoteCached bm vote bm' ack := by
  obtain ⟨opener, recorded⟩ := trace_opened run fun _ _ => 0
  refine ⟨⟨opener, recorded, ?_⟩, fun _ _ _ h => voteCached_of_cacheCommitVote h⟩
  exact (openedBy_of_trace recorded (openedBy_new _ _ _)).votesBounded

/-- Author 1 votes for three block ids of round 12 and author 2 for one: the
third block id of author 1 is refused, and the drain of block 7 hands out
both votes for it. -/
theorem commitVoteCache_bounded_after_votes :
    let voteOf : Author → Nat → HashValue → CommitVote := fun author round blockId =>
      ⟨author, ⟨⟨1, round, blockId, 0, 0, 0, none⟩, 0⟩, ⟨author, .ledgerInfo ⟨⟨1, round, blockId, 0, 0, 0, none⟩, 0⟩⟩⟩
    let calls : List Call :=
      [.cacheCommitVote (voteOf 1 12 7), .cacheCommitVote (voteOf 2 12 7), .cacheCommitVote (voteOf 1 12 8),
        .cacheCommitVote (voteOf 1 12 9), .drainCachedCommitVotes 12 7]
    let replies : List Reply :=
      [.acked true, .acked true, .acked true, .acked false, .votes [voteOf 1 12 7, voteOf 2 12 7]]
    ∃ bm, run (step inAuthorOrder) (new 10 5) calls = some (bm, replies) ∧
      (∃ opener, Trace (stepOpened inAuthorOrder) (fun _ _ => True) (new 10 5, fun _ _ => 0) (calls.zip replies) (bm, opener) ∧
        VotesBounded bm opener) ∧
      ∀ vote bm' ack, bm.cacheCommitVote vote = (bm', ack) → VoteCached bm vote bm' ack := by
  intro voteOf calls replies
  have shape : (run (step inAuthorOrder) (new 10 5) calls).map Prod.snd = some replies := by decide +kernel
  obtain ⟨⟨bm, rs⟩, ran, rfl⟩ := Option.map_eq_some_iff.mp shape
  exact ⟨bm, ran, commitVoteCache_bounded (Trace.of_run ran)⟩

end BufferManager

end GravitySdk.Pipeline
