/- Runs of the proof queue.
   digest: Every run of pushes, batch summaries, commits and block timestamps
   from ProofQueue::new keeps the queue well formed: each queued batch under
   its own key and author, with a proof entry of that batch, and alone with
   its batch key. So on every queue a run reaches, pull_proofs returns distinct
   takeable proofs within the limits, their unique transactions counted, and
   each author's first takeable proofs in order; a pull that is not full and
   not asked to return non-full returns nothing. -/

import Mathlib
import GravitySdk.QuorumStore.PullProofs
import GravitySdk.Lib.Transition

set_option autoImplicit false
set_option relaxedAutoImplicit false

namespace GravitySdk.QuorumStore.Utils.ProofQueue

open GravitySdk.Lib
open GravitySdk.Lib.Transition
open GravitySdk.Lib.RoundRobin
open GravitySdk.Consensus

/-- The calls that change a proof queue; `pull_proofs` only reads it. -/
inductive Call where
  | push (proof : ProofOfStore) (gcNow : Option Nat)
  | addBatchSummaries (batchSummaries : List (BatchInfo × List Summary)) (gcNow : Option Nat)
  | markCommitted (batches : List BatchInfo)
  | handleUpdatedBlockTimestamp (hashOrder : List BatchSortKey → List BatchSortKey) (blockTimestamp : Nat)

/-- One call; `none` is a panic. -/
def step (pq : ProofQueue) : Call → Option (ProofQueue × Unit)
  | .push proof gcNow => (pq.push proof gcNow).map (·, ())
  | .addBatchSummaries batchSummaries gcNow => (pq.addBatchSummaries batchSummaries gcNow).map (·, ())
  | .markCommitted batches => (pq.markCommitted batches).map (·, ())
  | .handleUpdatedBlockTimestamp hashOrder blockTimestamp =>
      (pq.handleUpdatedBlockTimestamp hashOrder blockTimestamp).map (·, ())

variable {pq pq' : ProofQueue}

/-! ### What the calls do to the queues -/

theorem queued_congr (batches : pq'.authorToBatches = pq.authorToBatches) (author : Author)
    (sortKey : BatchSortKey) (batch : BatchInfo) : pq'.Queued author sortKey batch ↔ pq.Queued author sortKey batch := by
  unfold Queued
  rw [batches]

theorem moveRemaining_queues {op : Nat → Nat → Option Nat} {author : Author} {numTxns : Nat}
    (h : pq.moveRemaining op author numTxns = some pq') :
    pq'.authorToBatches = pq.authorToBatches ∧ pq'.batchToProof = pq.batchToProof := by
  unfold moveRemaining at h
  simp only [Option.bind_eq_bind, Option.bind_eq_some_iff] at h
  obtain ⟨_, _, _, _, h⟩ := h
  split_ifs at h
  · simp only [Option.bind_eq_some_iff, Option.pure_def, Option.some.injEq] at h
    obtain ⟨_, _, _, _, rfl⟩ := h
    exact ⟨rfl, rfl⟩
  · cases h
    exact ⟨rfl, rfl⟩

@[simp] theorem gcSampled_authorToBatches (gcNow : Option Nat) :
    (pq.gcSampled gcNow).authorToBatches = pq.authorToBatches := by
  cases gcNow <;> rfl

@[simp] theorem gcSampled_batchToProof (gcNow : Option Nat) :
    (pq.gcSampled gcNow).batchToProof = pq.batchToProof := by
  cases gcNow <;> rfl

theorem addBatchSummary_queues {batchInfo : BatchInfo} {txnSummaries : List Summary}
    (h : pq.addBatchSummary batchInfo txnSummaries = some pq') :
    pq'.authorToBatches = pq.authorToBatches ∧ pq'.batchToProof = pq.batchToProof := by
  simp only [addBatchSummary, Option.bind_eq_bind] at h
  -- whether the summaries are counted, and whether they are recorded, only
  -- the occurrence map and the summaries change
  split at h
  · obtain ⟨_, _, h⟩ := Option.bind_eq_some_iff.mp h
    split at h <;> (cases h; exact ⟨rfl, rfl⟩)
  · obtain ⟨_, _, h⟩ := Option.bind_eq_some_iff.mp h
    split at h <;> (cases h; exact ⟨rfl, rfl⟩)

theorem addBatchSummariesLoop_queues {batchSummaries : List (BatchInfo × List Summary)}
    (h : pq.addBatchSummariesLoop batchSummaries = some pq') :
    pq'.authorToBatches = pq.authorToBatches ∧ pq'.batchToProof = pq.batchToProof := by
  induction batchSummaries generalizing pq with
  | nil =>
      cases h
      exact ⟨rfl, rfl⟩
  | cons entry rest ih =>
      obtain ⟨pq₁, added, later⟩ := Option.bind_eq_some_iff.mp h
      obtain ⟨batches₁, proofs₁⟩ := addBatchSummary_queues added
      obtain ⟨batches, proofs⟩ := ih later
      exact ⟨batches.trans batches₁, proofs.trans proofs₁⟩

theorem addBatchSummaries_queues {batchSummaries : List (BatchInfo × List Summary)} {gcNow : Option Nat}
    (h : pq.addBatchSummaries batchSummaries gcNow = some pq') :
    pq'.authorToBatches = pq.authorToBatches ∧ pq'.batchToProof = pq.batchToProof := by
  obtain ⟨looped, ran, rfl⟩ := Option.map_eq_some_iff.mp h
  simpa using addBatchSummariesLoop_queues ran

theorem markCommittedBatch_queues {batch : BatchInfo} (h : pq.markCommittedBatch batch = some pq') :
    pq'.authorToBatches = pq.authorToBatches ∧
      pq'.batchToProof = pq.batchToProof.insert (BatchKey.fromInfo batch) none := by
  simp only [markCommittedBatch, Option.bind_eq_bind] at h
  -- an uncommitted proof first leaves the counters, then its summaries are
  -- uncounted: neither touches the queues
  split at h
  · obtain ⟨pq₁, moved, h⟩ := Option.bind_eq_some_iff.mp h
    obtain ⟨batches, proofs⟩ := moveRemaining_queues moved
    split at h <;>
    · obtain ⟨_, _, h⟩ := Option.bind_eq_some_iff.mp h
      cases h
      exact ⟨batches, by rw [proofs]⟩
  · obtain ⟨pq₁, same, h⟩ := Option.bind_eq_some_iff.mp h
    cases same
    split at h <;>
    · obtain ⟨_, _, h⟩ := Option.bind_eq_some_iff.mp h
      cases h
      exact ⟨rfl, rfl⟩

theorem expireBatch_queues {blockTimestamp : Nat} {key : BatchSortKey}
    (h : pq.expireBatch blockTimestamp key = some pq') :
    (∀ author sortKey batch, pq'.Queued author sortKey batch →
      pq.Queued author sortKey batch ∧ (author = key.author → sortKey ≠ key)) ∧
    (pq'.batchToProof = pq.batchToProof ∨
      ((∃ batch, pq.Queued key.author key batch) ∧ pq'.batchToProof = pq.batchToProof.erase key.batchKey)) := by
  cases found : pq.authorToBatches.get key.author with
  | none =>
      simp only [expireBatch, found] at h
      cases h
      refine ⟨fun author sortKey batch queued => ⟨queued, ?_⟩, .inl rfl⟩
      rintro rfl
      obtain ⟨batches, found', -⟩ := queued
      rw [found] at found'
      cases found'
  | some queue =>
      simp only [expireBatch, found, Option.bind_eq_bind] at h
      obtain ⟨pq₁, expired, rfl⟩ := Option.map_eq_some_iff.mp h
      -- the author's queue is taken out first, and the proof entry of a queued key goes
      have taken : pq₁.authorToBatches = pq.authorToBatches.erase key.author ∧
          (pq₁.batchToProof = pq.batchToProof ∨
            ((queue.get key).isSome ∧ pq₁.batchToProof = pq.batchToProof.erase key.batchKey)) := by
        cases entryOf : queue.get key with
        | none =>
            simp only [entryOf] at expired
            cases expired
            exact ⟨rfl, .inl rfl⟩
        | some batch =>
            simp only [entryOf] at expired
            obtain ⟨entry, -, expired⟩ := Option.bind_eq_some_iff.mp expired
            have erased : pq₁.authorToBatches = pq.authorToBatches.erase key.author ∧
                pq₁.batchToProof = pq.batchToProof.erase key.batchKey := by
              split at expired
              · obtain ⟨_, _, expired⟩ := Option.bind_eq_some_iff.mp expired
                split at expired <;>
                · obtain ⟨_, _, expired⟩ := Option.bind_eq_some_iff.mp expired
                  obtain ⟨pq₂, moved, expired⟩ := Option.bind_eq_some_iff.mp expired
                  cases expired
                  obtain ⟨batches, proofs⟩ := moveRemaining_queues moved
                  exact ⟨batches, by rw [proofs]⟩
              · obtain ⟨pq₂, same, expired⟩ := Option.bind_eq_some_iff.mp expired
                cases same
                cases expired
                exact ⟨rfl, rfl⟩
            exact ⟨erased.1, .inr ⟨rfl, erased.2⟩⟩
      refine ⟨?_, ?_⟩
      · intro author sortKey batch queued
        obtain ⟨batches, foundAfter, entry⟩ := queued
        split at foundAfter
        · -- the queue emptied: the author is gone
          rw [taken.1, SortedStore.get_erase] at foundAfter
          split_ifs at foundAfter with same
          exact ⟨⟨batches, foundAfter, entry⟩, fun gone => absurd gone same⟩
        · rw [SortedStore.get_insert, taken.1, SortedStore.get_erase] at foundAfter
          split_ifs at foundAfter with same
          · cases foundAfter
            rw [SortedStore.get_erase] at entry
            split_ifs at entry with isKey
            subst same
            exact ⟨⟨queue, found, entry⟩, fun _ => isKey⟩
          · exact ⟨⟨batches, foundAfter, entry⟩, fun gone => absurd gone same⟩
      · have proofs : (if (queue.erase key).entries.isEmpty then pq₁
            else { pq₁ with authorToBatches := pq₁.authorToBatches.insert key.author (queue.erase key) }).batchToProof =
            pq₁.batchToProof := by
          split <;> rfl
        rw [proofs]
        rcases taken.2 with same | ⟨queuedKey, erased⟩
        · exact .inl same
        · obtain ⟨batch, entry⟩ := Option.isSome_iff_exists.mp queuedKey
          exact .inr ⟨⟨batch, queue, found, entry⟩, erased⟩

/-! ### Well-formedness along a run -/

theorem wellFormed_new (myPeerId : Author) : (new myPeerId).WellFormed := by
  have nothing : ∀ author sortKey batch, ¬(new myPeerId).Queued author sortKey batch := by
    rintro author sortKey batch ⟨batches, found, -⟩
    cases found
  exact ⟨fun a s b q => absurd q (nothing a s b), fun a s b q => absurd q (nothing a s b),
    fun a s _ b _ q => absurd q (nothing a s b)⟩

theorem WellFormed.of_same (wf : pq.WellFormed) (batches : pq'.authorToBatches = pq.authorToBatches)
    (proofs : pq'.batchToProof = pq.batchToProof) : pq'.WellFormed := by
  refine ⟨fun a s b q => wf.keyed a s b ((queued_congr batches a s b).mp q), fun a s b q => ?_,
    fun a s s' b b' q q' => wf.unique a s s' b b' ((queued_congr batches a s b).mp q)
      ((queued_congr batches a s' b').mp q')⟩
  rw [proofs]
  exact wf.proofOf a s b ((queued_congr batches a s b).mp q)

theorem WellFormed.batchKey_ne_of_absent (wf : pq.WellFormed) {key : BatchKey}
    (absent : (pq.batchToProof.get key).isSome = false) {author : Author} {sortKey : BatchSortKey}
    {batch : BatchInfo} (queued : pq.Queued author sortKey batch) : sortKey.batchKey ≠ key := by
  intro same
  obtain ⟨entry, hasEntry, -⟩ := wf.proofOf author sortKey batch queued
  rw [← same, hasEntry] at absent
  cases absent

theorem queued_of_push {proof : ProofOfStore}
    (batches : pq'.authorToBatches = pq.authorToBatches.insert proof.info.author
      (((pq.authorToBatches.get proof.info.author).getD .empty).insert (BatchSortKey.fromInfo proof.info) proof.info))
    {author : Author} {sortKey : BatchSortKey} {batch : BatchInfo} (queued : pq'.Queued author sortKey batch) :
    (author = proof.info.author ∧ sortKey = BatchSortKey.fromInfo proof.info ∧ batch = proof.info) ∨
      pq.Queued author sortKey batch := by
  obtain ⟨batches', found, entry⟩ := queued
  rw [batches, SortedStore.get_insert] at found
  split_ifs at found with same
  · cases found
    rw [SortedStore.get_insert] at entry
    split_ifs at entry with sameKey
    · cases entry
      exact .inl ⟨same, sameKey, rfl⟩
    · -- an older batch of the pusher's queue
      right
      cases old : pq.authorToBatches.get proof.info.author with
      | none => simp [old] at entry
      | some queue =>
          rw [old, Option.getD_some] at entry
          exact ⟨queue, same ▸ old, entry⟩
  · exact .inr ⟨batches', found, entry⟩

theorem WellFormed.of_push (wf : pq.WellFormed) {proof : ProofOfStore}
    (absent : (pq.batchToProof.get (BatchKey.fromInfo proof.info)).isSome = false)
    (batches : pq'.authorToBatches = pq.authorToBatches.insert proof.info.author
      (((pq.authorToBatches.get proof.info.author).getD .empty).insert (BatchSortKey.fromInfo proof.info) proof.info))
    (proofs : pq'.batchToProof = pq.batchToProof.insert (BatchKey.fromInfo proof.info) (some proof)) :
    pq'.WellFormed := by
  refine ⟨?_, ?_, ?_⟩
  · intro author sortKey batch queued
    rcases queued_of_push batches queued with ⟨rfl, rfl, rfl⟩ | old
    · exact ⟨rfl, rfl⟩
    · exact wf.keyed author sortKey batch old
  · intro author sortKey batch queued
    rw [proofs]
    rcases queued_of_push batches queued with ⟨rfl, rfl, rfl⟩ | old
    · refine ⟨some proof, by simp [BatchSortKey.fromInfo], ?_⟩
      intro proof' same
      cases same
      rfl
    · obtain ⟨entry, hasEntry, ofBatch⟩ := wf.proofOf author sortKey batch old
      refine ⟨entry, ?_, ofBatch⟩
      rw [SortedStore.get_insert, if_neg (wf.batchKey_ne_of_absent absent old), hasEntry]
  · intro author sortKey sortKey' batch batch' queued queued' sameKey
    rcases queued_of_push batches queued with ⟨-, rfl, -⟩ | old <;>
      rcases queued_of_push batches queued' with ⟨-, rfl, -⟩ | old'
    · rfl
    · exact absurd sameKey.symm (wf.batchKey_ne_of_absent absent old')
    · exact absurd sameKey (wf.batchKey_ne_of_absent absent old)
    · exact wf.unique author sortKey sortKey' batch batch' old old' sameKey

theorem WellFormed.of_commit (wf : pq.WellFormed) {key : BatchKey}
    (batches : pq'.authorToBatches = pq.authorToBatches) (proofs : pq'.batchToProof = pq.batchToProof.insert key none) :
    pq'.WellFormed := by
  refine ⟨fun a s b q => wf.keyed a s b ((queued_congr batches a s b).mp q), ?_,
    fun a s s' b b' q q' => wf.unique a s s' b b' ((queued_congr batches a s b).mp q)
      ((queued_congr batches a s' b').mp q')⟩
  intro author sortKey batch queued
  obtain ⟨entry, hasEntry, ofBatch⟩ := wf.proofOf author sortKey batch ((queued_congr batches _ _ _).mp queued)
  rw [proofs, SortedStore.get_insert]
  split_ifs
  · exact ⟨none, rfl, fun _ committed => by cases committed⟩
  · exact ⟨entry, hasEntry, ofBatch⟩

theorem WellFormed.of_expire (wf : pq.WellFormed) {key : BatchSortKey}
    (shrinks : ∀ author sortKey batch, pq'.Queued author sortKey batch →
      pq.Queued author sortKey batch ∧ (author = key.author → sortKey ≠ key))
    (proofs : pq'.batchToProof = pq.batchToProof ∨
      ((∃ batch, pq.Queued key.author key batch) ∧ pq'.batchToProof = pq.batchToProof.erase key.batchKey)) :
    pq'.WellFormed := by
  refine ⟨fun a s b q => wf.keyed a s b (shrinks a s b q).1, ?_,
    fun a s s' b b' q q' => wf.unique a s s' b b' (shrinks a s b q).1 (shrinks a s' b' q').1⟩
  intro author sortKey batch queued
  obtain ⟨old, notKey⟩ := shrinks author sortKey batch queued
  obtain ⟨entry, hasEntry, ofBatch⟩ := wf.proofOf author sortKey batch old
  rcases proofs with same | ⟨⟨batch₀, queuedKey⟩, erased⟩
  · exact ⟨entry, same ▸ hasEntry, ofBatch⟩
  · refine ⟨entry, ?_, ofBatch⟩
    rw [erased, SortedStore.get_erase, if_neg, hasEntry]
    -- a batch of the expired key's batch key would be the expired key itself
    intro sameKey
    have byAuthor : author = key.author := by
      obtain ⟨keyed, authored⟩ := wf.keyed author sortKey batch old
      have authors := congrArg BatchKey.author sameKey
      rw [keyed] at authors
      rw [← authored]
      exact authors
    subst byAuthor
    exact notKey rfl (wf.unique _ sortKey key batch batch₀ old queuedKey sameKey)

theorem WellFormed.push (wf : pq.WellFormed) {proof : ProofOfStore} {gcNow : Option Nat}
    (h : pq.push proof gcNow = some pq') : pq'.WellFormed := by
  simp only [ProofQueue.push, Option.bind_eq_bind] at h
  split_ifs at h with expired known
  · cases h
    exact wf
  · cases h
    exact wf
  · -- the proof is queued; counting its summaries, raising the counters and
    -- the sampled collection leave the queues as the queuing left them
    have queues : ∀ pq₁ pq₂ : ProofQueue, pq₁.authorToBatches = pq.authorToBatches.insert proof.info.author
          (((pq.authorToBatches.get proof.info.author).getD .empty).insert (BatchSortKey.fromInfo proof.info) proof.info) →
        pq₁.batchToProof = pq.batchToProof.insert (BatchKey.fromInfo proof.info) (some proof) →
        pq₁.incRemaining proof.info.author proof.info.numTxns = some pq₂ → (pq₂.gcSampled gcNow).WellFormed := by
      intro pq₁ pq₂ batches proofs raised
      obtain ⟨batches₂, proofs₂⟩ := moveRemaining_queues raised
      exact wf.of_push (by simpa using known) (by simp [batches₂, batches]) (by simp [proofs₂, proofs])
    split at h
    · obtain ⟨_, _, h⟩ := Option.bind_eq_some_iff.mp h
      obtain ⟨pq₁, same, h⟩ := Option.bind_eq_some_iff.mp h
      cases same
      obtain ⟨pq₂, raised, h⟩ := Option.bind_eq_some_iff.mp h
      cases h
      exact queues _ pq₂ rfl rfl raised
    · obtain ⟨pq₁, same, h⟩ := Option.bind_eq_some_iff.mp h
      cases same
      obtain ⟨pq₂, raised, h⟩ := Option.bind_eq_some_iff.mp h
      cases h
      exact queues _ pq₂ rfl rfl raised

theorem WellFormed.markCommitted (wf : pq.WellFormed) {batches : List BatchInfo}
    (h : pq.markCommitted batches = some pq') : pq'.WellFormed := by
  induction batches generalizing pq with
  | nil =>
      cases h
      exact wf
  | cons batch rest ih =>
      obtain ⟨pq₁, committed, later⟩ := Option.bind_eq_some_iff.mp h
      obtain ⟨batches₁, proofs₁⟩ := markCommittedBatch_queues committed
      exact ih (wf.of_commit batches₁ proofs₁) later

theorem WellFormed.expireLoop (wf : pq.WellFormed) {blockTimestamp : Nat} {keys : List BatchSortKey}
    (h : pq.expireLoop blockTimestamp keys = some pq') : pq'.WellFormed := by
  induction keys generalizing pq with
  | nil =>
      cases h
      exact wf
  | cons key rest ih =>
      obtain ⟨pq₁, expired, later⟩ := Option.bind_eq_some_iff.mp h
      obtain ⟨shrinks, proofs⟩ := expireBatch_queues expired
      exact ih (wf.of_expire shrinks proofs) later

theorem WellFormed.handleUpdatedBlockTimestamp (wf : pq.WellFormed)
    {hashOrder : List BatchSortKey → List BatchSortKey} {blockTimestamp : Nat}
    (h : pq.handleUpdatedBlockTimestamp hashOrder blockTimestamp = some pq') : pq'.WellFormed := by
  simp only [ProofQueue.handleUpdatedBlockTimestamp] at h
  split_ifs at h
  -- the timestamp and the heap move first, then the expired keys go one by one
  have moved : WellFormed
      { pq with latestBlockTimestamp := blockTimestamp, expirations := (pq.expirations.expire blockTimestamp).2 } :=
    wf.of_same rfl rfl
  exact moved.expireLoop h

theorem WellFormed.step (wf : pq.WellFormed) {call : Call} {reply : Unit} (h : pq.step call = some (pq', reply)) :
    pq'.WellFormed := by
  cases call with
  | push proof gcNow =>
      obtain ⟨pq₁, pushed, same⟩ := Option.map_eq_some_iff.mp h
      cases same
      exact wf.push pushed
  | addBatchSummaries batchSummaries gcNow =>
      obtain ⟨pq₁, added, same⟩ := Option.map_eq_some_iff.mp h
      cases same
      obtain ⟨batches, proofs⟩ := addBatchSummaries_queues added
      exact wf.of_same batches proofs
  | markCommitted batches =>
      obtain ⟨pq₁, committed, same⟩ := Option.map_eq_some_iff.mp h
      cases same
      exact wf.markCommitted committed
  | handleUpdatedBlockTimestamp hashOrder blockTimestamp =>
      obtain ⟨pq₁, updated, same⟩ := Option.map_eq_some_iff.mp h
      cases same
      exact wf.handleUpdatedBlockTimestamp updated

/-- Every queue a run reaches from `ProofQueue::new` is well formed. -/
theorem wellFormed_of_trace {myPeerId : Author} {evs : List (Call × Unit)}
    (run : Trace step (fun _ _ => True) (new myPeerId) evs pq) : pq.WellFormed :=
  Trace.invariant (fun pq _ => pq.WellFormed) (wellFormed_new myPeerId)
    (fun _ _ _ _ _ wf _ stepped => wf.step stepped) run

/-! ### Pulls from a reachable queue -/

/-- On every queue a run reaches, for every excluded set, limits, timestamp
and shuffles, `pull_proofs` returns distinct proofs of batches neither
excluded nor committed, within the byte and transaction limits, with their
unique transactions counted within their limit, and of each author the first
of its takeable proofs from its highest `BatchSortKey` down, all of them when
the queue was left not full and returned. -/
theorem pullProofs_laws_of_run {myPeerId : Author} {evs : List (Call × Unit)}
    (run : Trace step (fun _ _ => True) (new myPeerId) evs pq)
    {excluded : List BatchInfo} {maxTxns maxTxnsAfterFiltering softMaxTxnsAfterFiltering maxBytes blockTimestamp : Nat}
    {shuffles : Shuffles (Author × List (BatchSortKey × BatchInfo))} {returnNonFull : Bool}
    {proofs : List ProofOfStore} {uniqueTxns : Nat} {notFull : Bool}
    (h : pq.pullProofs excluded maxTxns maxTxnsAfterFiltering softMaxTxnsAfterFiltering maxBytes blockTimestamp
      shuffles returnNonFull = some (proofs, uniqueTxns, notFull)) :
    pq.PullLaws excluded maxTxns maxTxnsAfterFiltering maxBytes blockTimestamp returnNonFull proofs uniqueTxns notFull :=
  pullProofs_laws_of_wellFormed (wellFormed_of_trace run) softMaxTxnsAfterFiltering h

/-- Two proofs of author 1 pushed, the summaries of the first added, and a
pull that takes both: the one of the higher gas bucket first, three
transactions without summaries and two unexpired summaries. -/
theorem pullProofs_laws_of_run_after_pushes :
    let first : ProofOfStore := ⟨⟨1, ⟨0, 0⟩, 0, 100, 7, 5, 100, 0⟩⟩
    let second : ProofOfStore := ⟨⟨1, ⟨1, 0⟩, 0, 100, 8, 3, 50, 4⟩⟩
    let calls : List Call := [.push first none, .push second none,
      .addBatchSummaries [(first.info, [⟨2, 0, 100, 21⟩, ⟨3, 0, 100, 22⟩])] none]
    let ran := (run step (new 0) calls).get (by decide +kernel)
    ran.1.PullLaws [] 100 100 1000 10 true [second, first] 5 true := by
  intro first second calls ran
  have ranEq : run step (new 0) calls = some ran := (Option.some_get _).symm
  have pulled : ran.1.pullProofs [] 100 100 100 1000 10 Shuffles.keep true = some ([second, first], 5, true) := by
    decide +kernel
  exact pullProofs_laws_of_run (Trace.of_run ranEq) pulled

/-- The same queue pulled without `return_non_full`: the pull is not full,
so it returns nothing, and skips both proofs author 1 may give. -/
theorem pullProofs_skips_takeable_when_not_full :
    let first : ProofOfStore := ⟨⟨1, ⟨0, 0⟩, 0, 100, 7, 5, 100, 0⟩⟩
    let second : ProofOfStore := ⟨⟨1, ⟨1, 0⟩, 0, 100, 8, 3, 50, 4⟩⟩
    let calls : List Call := [.push first none, .push second none,
      .addBatchSummaries [(first.info, [⟨2, 0, 100, 21⟩, ⟨3, 0, 100, 22⟩])] none]
    (run step (new 0) calls).map (fun ran =>
        (ran.1.pullProofs [] 100 100 100 1000 10 Shuffles.keep false, ran.1.eligibleProofs [] 1)) =
      some (some ([], 0, true), [second, first]) := by
  decide +kernel

end GravitySdk.QuorumStore.Utils.ProofQueue
