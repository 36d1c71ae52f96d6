/- Pulling proofs of store into a block.
   digest: ProofQueue::pull_proofs as the source runs it: the summaries of the
   excluded batches first, then rounds over the authors' queues in any order,
   each author's batches from the highest BatchSortKey down, every batch
   admitted against the byte and transaction limits by a count that inserts
   nothing and then counted by one that does, and at the end a stable sort by
   descending gas bucket. -/

import Mathlib
import GravitySdk.QuorumStore.ProofQueue
import GravitySdk.Lib.RoundRobin

set_option autoImplicit false
set_option relaxedAutoImplicit false

namespace GravitySdk.QuorumStore.Utils

open GravitySdk.Lib
open GravitySdk.Lib.RoundRobin
open GravitySdk.Consensus

/-!
`pull_proofs` takes `&mut self` but changes nothing of the queue: what it
writes are counters and logs, left out with the metrics.  The `HashSet` of
excluded batches is a list read by membership, the `HashSet` of filtered
summaries a `Finset`; the thread's random shuffles are any `Shuffles`, one
order per round.  The block timestamp is read by its whole seconds, as
`block_timestamp.as_secs()` does.
-/

abbrev Summary := TxnSummaryWithExpiration

/-- The variables of `pull_proofs` that the loop's closure writes. -/
structure PullVars where
  ret : List ProofOfStore
  curBytes : Nat
  curUniqueTxns : Nat
  curAllTxns : Nat
  excludedTxns : Nat
  full : Bool
  filteredTxns : Finset Summary

/-- `summaries.iter().filter(|s| filtered_txns.insert(*s) && ts < s.expiration).count()`:
the insertion runs on every summary, and the count takes those new to the set
and unexpired. -/
def insertCount (blockTimestamp : Nat) : Finset Summary → List Summary → Nat × Finset Summary
  | filtered, [] => (0, filtered)
  | filtered, s :: rest =>
      let counted := decide (s ∉ filtered) && decide (blockTimestamp < s.expirationTimestampSecs)
      let after := insertCount blockTimestamp (insert s filtered) rest
      ((if counted then 1 else 0) + after.1, after.2)

/-- The count of the admission test: the summaries not filtered yet and
unexpired, by a filter that inserts nothing. -/
def prospectiveCount (blockTimestamp : Nat) (filtered : Finset Summary) (txnSummaries : List Summary) : Nat :=
  (txnSummaries.filter fun s => decide (s ∉ filtered) && decide (blockTimestamp < s.expirationTimestampSecs)).length

namespace ProofQueue

variable (pq : ProofQueue)

/-- The summaries recorded for a batch key, if any. -/
def summariesOf (batchKey : BatchKey) : Option (List Summary) :=
  (pq.batchSummaries.get batchKey).map (·.1)

/-- The first loop of `pull_proofs`: every summary of an excluded batch is
filtered from the start. -/
def excludedSummaries (excluded : List BatchInfo) : Finset Summary :=
  (excluded.flatMap fun info => (pq.summariesOf (BatchKey.fromInfo info)).getD []).toFinset

/-- `author_to_batches.iter()` with `batches.iter().rev()`: one iterator per
author, from its highest `BatchSortKey` down. -/
def authorIters : List (Author × List (BatchSortKey × BatchInfo)) :=
  pq.authorToBatches.entries.map fun entry => (entry.1, entry.2.entries.reverse)

section Pull

variable (excluded : List BatchInfo) (maxTxns maxTxnsAfterFiltering softMaxTxnsAfterFiltering maxBytes : Nat)
  (blockTimestamp : Nat)

/-- The closure of `retain_mut` on the batch `batch` under `sortKey`: whether
its author's iterator stays, and the variables after.  An excluded batch
counts its transactions; a batch with an uncommitted proof is admitted when
the bytes, the prospective unique count and all the transactions stay within
their limits, tested in this order and each sum formed only when the test
before it passed; an admitted batch stops the iterator at a limit it reaches
or at the soft limit.  `none` is an overflow. -/
def visitBatch (sortKey : BatchSortKey) (batch : BatchInfo) (v : PullVars) : Option (Bool × PullVars) :=
  if batch ∈ excluded then do
    let excludedTxns ← Checked.add UInt64.size v.excludedTxns batch.numTxns
    pure (true, { v with excludedTxns := excludedTxns })
  else
    match pq.batchToProof.get sortKey.batchKey with
    | some (some proof) => do
        let summaries := pq.summariesOf sortKey.batchKey
        let uniqueTxns ← Checked.add UInt64.size v.curUniqueTxns
          ((summaries.map (prospectiveCount blockTimestamp v.filteredTxns)).getD batch.numTxns)
        let curBytes ← Checked.add UInt64.size v.curBytes batch.numBytes
        if maxBytes < curBytes ∨ maxTxnsAfterFiltering < uniqueTxns then
          pure (false, { v with full := true })
        else do
          let curAllTxns ← Checked.add UInt64.size v.curAllTxns batch.numTxns
          if maxTxns < curAllTxns then
            pure (false, { v with full := true })
          else do
            let inserted := (summaries.map (insertCount blockTimestamp v.filteredTxns)).getD
              (batch.numTxns, v.filteredTxns)
            let curUniqueTxns ← Checked.add UInt64.size v.curUniqueTxns inserted.1
            let v := { v with
              ret := v.ret ++ [proof], curBytes := curBytes, curAllTxns := curAllTxns,
              curUniqueTxns := curUniqueTxns, filteredTxns := inserted.2 }
            if curBytes = maxBytes ∨ curAllTxns = maxTxns ∨ curUniqueTxns = maxTxnsAfterFiltering ∨
                softMaxTxnsAfterFiltering ≤ curUniqueTxns then
              pure (false, { v with full := true })
            else pure (true, v)
    | _ => pure (true, v)

/-- The variables before the loop. -/
def pullStart : PullVars := ⟨[], 0, 0, 0, 0, false, pq.excludedSummaries excluded⟩

/-- `ret.sort_by_key(|proof| Reverse(proof.gas_bucket_start()))`: a stable
sort, so the insertion sort is the same. -/
def sortByGasDesc (ret : List ProofOfStore) : List ProofOfStore :=
  ret.insertionSort fun a b => b.info.gasBucketStart ≤ a.info.gasBucketStart

/-- `pull_proofs`: the proofs, their unique transactions and whether the
queue was left not full; a pull that is not full returns nothing unless
`return_non_full`. -/
def pullProofs (shuffles : Shuffles (Author × List (BatchSortKey × BatchInfo))) (returnNonFull : Bool) :
    Option (List ProofOfStore × Nat × Bool) := do
  let visit := fun (entry : BatchSortKey × BatchInfo) =>
    pq.visitBatch excluded maxTxns maxTxnsAfterFiltering softMaxTxnsAfterFiltering maxBytes blockTimestamp
      entry.1 entry.2
  let (_, v) ← rounds visit shuffles 0 (budget pq.authorIters + 1) pq.authorIters (pq.pullStart excluded)
  if v.full || returnNonFull then pure (sortByGasDesc v.ret, v.curUniqueTxns, !v.full)
  else pure ([], 0, !v.full)

end Pull

end ProofQueue

/-! ### The two counts of a batch's summaries -/

section Counts

variable (blockTimestamp : Nat)

/-- The summaries that count: unexpired at the block timestamp. -/
def unexpired (summaries : Finset Summary) : Finset Summary :=
  summaries.filter fun s => blockTimestamp < s.expirationTimestampSecs

theorem insert_sdiff_of_not_mem {s : Summary} {rest filtered : Finset Summary} (fresh : s ∉ filtered) :
    insert s rest \ filtered = insert s (rest \ insert s filtered) := by
  ext t
  simp only [Finset.mem_sdiff, Finset.mem_insert]
  by_cases same : t = s
  · subst same
    simp [fresh]
  · simp [same]

theorem insertCount_eq (filtered : Finset Summary) (txnSummaries : List Summary) :
    insertCount blockTimestamp filtered txnSummaries =
      ((unexpired blockTimestamp (txnSummaries.toFinset \ filtered)).card, filtered ∪ txnSummaries.toFinset) := by
  induction txnSummaries generalizing filtered with
  | nil => simp [insertCount, unexpired]
  | cons s rest ih =>
      simp only [insertCount, ih, List.toFinset_cons, Finset.insert_union, Finset.union_insert,
        Prod.mk.injEq, and_true]
      by_cases old : s ∈ filtered
      · -- a summary already filtered counts nothing, and inserting it changes nothing
        have same : insert s filtered = filtered := Finset.insert_eq_of_mem old
        rw [same, Finset.insert_sdiff_of_mem _ old]
        simp [old]
      · rw [insert_sdiff_of_not_mem old]
        have outside : s ∉ rest.toFinset \ insert s filtered := by simp
        by_cases live : blockTimestamp < s.expirationTimestampSecs
        · simp only [unexpired, Finset.filter_insert, live, if_true]
          rw [Finset.card_insert_of_notMem (by simp [outside])]
          simp [old]
          omega
        · simp [unexpired, Finset.filter_insert, live]

theorem card_unexpired_le_prospectiveCount (filtered : Finset Summary) (txnSummaries : List Summary) :
    (unexpired blockTimestamp (txnSummaries.toFinset \ filtered)).card ≤
      prospectiveCount blockTimestamp filtered txnSummaries := by
  have same : unexpired blockTimestamp (txnSummaries.toFinset \ filtered) =
      (txnSummaries.filter fun s => decide (s ∉ filtered) && decide (blockTimestamp < s.expirationTimestampSecs)).toFinset := by
    ext s
    simp [unexpired, and_assoc]
  rw [same]
  exact List.toFinset_card_le _

theorem card_unexpired_union (first second excluded : Finset Summary) :
    (unexpired blockTimestamp ((first ∪ second) \ excluded)).card =
      (unexpired blockTimestamp (first \ excluded)).card +
        (unexpired blockTimestamp (second \ (excluded ∪ first))).card := by
  have split : (first ∪ second) \ excluded = (first \ excluded) ∪ (second \ (excluded ∪ first)) := by
    ext s
    simp only [Finset.mem_sdiff, Finset.mem_union]
    tauto
  have apart : Disjoint (unexpired blockTimestamp (first \ excluded))
      (unexpired blockTimestamp (second \ (excluded ∪ first))) := by
    rw [Finset.disjoint_left]
    intro s inFirst inSecond
    simp only [unexpired, Finset.mem_filter, Finset.mem_sdiff, Finset.mem_union] at inFirst inSecond
    tauto
  rw [split, unexpired, Finset.filter_union]
  exact Finset.card_union_of_disjoint apart

end Counts

/-! ### Lists and keys -/

theorem map_filterMap_sublist {α β γ : Type} (f : α → Option β) (g : β → γ) (h : α → γ) :
    ∀ {l : List α}, (∀ a ∈ l, ∀ b, f a = some b → g b = h a) → ((l.filterMap f).map g).Sublist (l.map h)
  | [], _ => by simp
  | a :: l, agree => by
      have rest := map_filterMap_sublist f g h fun a' mem => agree a' (List.mem_cons_of_mem a mem)
      cases found : f a with
      | none =>
          rw [List.filterMap_cons_none found, List.map_cons]
          exact rest.cons _
      | some b =>
          rw [List.filterMap_cons_some found, List.map_cons, List.map_cons, agree a (by simp) b found]
          exact rest.cons_cons _

theorem nodup_of_filter_nodup {α β : Type} [DecidableEq β] (f : α → β) {l : List α}
    (h : ∀ b, (l.filter (f · = b)).Nodup) : l.Nodup := by
  rw [List.nodup_iff_sublist]
  intro a twice
  have kept := twice.filter fun x => decide (f x = f a)
  rw [show [a, a].filter (fun x => decide (f x = f a)) = [a, a] by simp] at kept
  exact List.nodup_iff_sublist.mp (h (f a)) a kept

theorem filter_insertionSort_of_pairwise {α : Type} (r : α → α → Prop) [DecidableRel r] (p : α → Bool)
    {l : List α} (sorted : (l.filter p).Pairwise r) : (l.insertionSort r).filter p = l.filter p := by
  have kept : (l.filter p).Sublist (l.insertionSort r) := List.sublist_insertionSort sorted List.filter_sublist
  have keptClass : (l.filter p).Sublist ((l.insertionSort r).filter p) := by
    simpa using kept.filter p
  exact (keptClass.eq_of_length ((List.perm_insertionSort r l).filter p).length_eq.symm).symm

theorem BatchSortKey.gasBucketStart_le_of_lt {k k' : BatchSortKey} (h : k < k') :
    k.gasBucketStart ≤ k'.gasBucketStart := by
  have ranked : k.rank < k'.rank := h
  rcases Prod.Lex.toLex_lt_toLex.mp ranked with lower | ⟨same, -⟩
  · exact le_of_lt lower
  · exact le_of_eq same

namespace ProofQueue

variable (pq : ProofQueue)

/-! ### What a pull may return -/

/-- `batch` is queued under `author` and `sortKey`. -/
def Queued (author : Author) (sortKey : BatchSortKey) (batch : BatchInfo) : Prop :=
  ∃ batches, pq.authorToBatches.get author = some batches ∧ batches.get sortKey = some batch

/-- A queue whose batch infos are what their keys and proofs say: each queued
batch sits under its own sort key and author, has an entry in
`batch_to_proof` whose proof, if uncommitted, is of that batch, and is the
only batch of its batch key. -/
structure WellFormed : Prop where
  keyed : ∀ author sortKey batch, pq.Queued author sortKey batch →
    sortKey = BatchSortKey.fromInfo batch ∧ batch.author = author
  proofOf : ∀ author sortKey batch, pq.Queued author sortKey batch →
    ∃ entry, pq.batchToProof.get sortKey.batchKey = some entry ∧ ∀ proof, entry = some proof → proof.info = batch
  unique : ∀ author sortKey sortKey' batch batch', pq.Queued author sortKey batch → pq.Queued author sortKey' batch' →
    sortKey.batchKey = sortKey'.batchKey → sortKey = sortKey'

variable (excluded : List BatchInfo)

/-- The proof a pull may take for a queued batch: none for an excluded batch,
nor for one whose proof is committed or missing. -/
def eligibleProof (entry : BatchSortKey × BatchInfo) : Option ProofOfStore :=
  if entry.2 ∈ excluded then none
  else
    match pq.batchToProof.get entry.1.batchKey with
    | some (some proof) => some proof
    | _ => none

/-- The proofs a pull may take from `author`'s batches, from the highest
`BatchSortKey` down. -/
def eligibleProofs (author : Author) : List ProofOfStore :=
  ((pq.authorToBatches.get author).map fun batches => batches.entries.reverse.filterMap (pq.eligibleProof excluded)).getD []

/-- The summaries of the batches of some proofs, in order. -/
def summariesOfProofs (proofs : List ProofOfStore) : List Summary :=
  proofs.flatMap fun proof => (pq.summariesOf (BatchKey.fromInfo proof.info)).getD []

/-- The unique transactions of some proofs: their distinct unexpired summaries
outside the excluded batches' summaries, and all the transactions of the
batches without summaries. -/
def uniqueTxnsOf (blockTimestamp : Nat) (proofs : List ProofOfStore) : Nat :=
  (unexpired blockTimestamp ((pq.summariesOfProofs proofs).toFinset \ pq.excludedSummaries excluded)).card +
    ((proofs.filter fun proof => (pq.summariesOf (BatchKey.fromInfo proof.info)).isNone).map (·.info.numTxns)).sum

/-- What a pull returns, by the limits it was given: distinct proofs, each of a
batch neither excluded nor committed, within the byte and transaction limits,
with their unique transactions counted within their limit; and of each author
the first of the proofs it may take, from its highest `BatchSortKey` down,
all of them when the queue was left not full and returned. -/
structure PullLaws (maxTxns maxTxnsAfterFiltering maxBytes blockTimestamp : Nat) (returnNonFull : Bool)
    (proofs : List ProofOfStore) (uniqueTxns : Nat) (notFull : Bool) : Prop where
  distinct : proofs.Nodup
  eligible : ∀ proof ∈ proofs,
    proof.info ∉ excluded ∧ pq.batchToProof.get (BatchKey.fromInfo proof.info) = some (some proof)
  bytes : (proofs.map (·.info.numBytes)).sum ≤ maxBytes
  txns : (proofs.map (·.info.numTxns)).sum ≤ maxTxns
  uniqueWithin : uniqueTxns ≤ maxTxnsAfterFiltering
  uniqueCount : uniqueTxns = pq.uniqueTxnsOf excluded blockTimestamp proofs
  descending : ∀ author,
    ((proofs.filter (·.info.author = author)).map fun proof => BatchSortKey.fromInfo proof.info).Pairwise (· > ·)
  taken : ∀ author, List.IsPrefix (proofs.filter (·.info.author = author)) (pq.eligibleProofs excluded author)
  allTaken : notFull = true → returnNonFull = true →
    ∀ author, proofs.filter (·.info.author = author) = pq.eligibleProofs excluded author

/-! ### One visit of the loop -/

section Visit

variable (maxTxns maxTxnsAfterFiltering softMaxTxnsAfterFiltering maxBytes blockTimestamp : Nat)

/-- What the closure does to the variables when it admits `batch` with its
proof: the proof is pushed, the sums grow within their limits, and the
counting filter counts its summaries, or all its transactions when it has
none. -/
structure Admits (sortKey : BatchSortKey) (batch : BatchInfo) (proof : ProofOfStore) (v v' : PullVars) : Prop where
  ret : v'.ret = v.ret ++ [proof]
  curBytes : v'.curBytes = v.curBytes + batch.numBytes
  bytesWithin : v'.curBytes ≤ maxBytes
  curAllTxns : v'.curAllTxns = v.curAllTxns + batch.numTxns
  txnsWithin : v'.curAllTxns ≤ maxTxns
  counted : v'.curUniqueTxns = v.curUniqueTxns +
    (((pq.summariesOf sortKey.batchKey).map (insertCount blockTimestamp v.filteredTxns)).getD
      (batch.numTxns, v.filteredTxns)).1
  filtered : v'.filteredTxns =
    (((pq.summariesOf sortKey.batchKey).map (insertCount blockTimestamp v.filteredTxns)).getD
      (batch.numTxns, v.filteredTxns)).2
  uniqueWithin : v'.curUniqueTxns ≤ maxTxnsAfterFiltering
  fullAfter : v'.full = v.full ∨ v'.full = true

theorem inserted_le_prospective (sortKey : BatchSortKey) (batch : BatchInfo) (filtered : Finset Summary) :
    (((pq.summariesOf sortKey.batchKey).map (insertCount blockTimestamp filtered)).getD (batch.numTxns, filtered)).1 ≤
      ((pq.summariesOf sortKey.batchKey).map (prospectiveCount blockTimestamp filtered)).getD batch.numTxns := by
  cases pq.summariesOf sortKey.batchKey with
  | none => simp
  | some txnSummaries =>
      simp only [Option.map_some, Option.getD_some, insertCount_eq]
      exact card_unexpired_le_prospectiveCount blockTimestamp filtered txnSummaries

theorem visitBatch_eq_some {sortKey : BatchSortKey} {batch : BatchInfo} {v v' : PullVars} {keep : Bool}
    (h : pq.visitBatch excluded maxTxns maxTxnsAfterFiltering softMaxTxnsAfterFiltering maxBytes blockTimestamp
      sortKey batch v = some (keep, v')) :
    (pq.eligibleProof excluded (sortKey, batch) = none ∧ keep = true ∧ ∃ n, v' = { v with excludedTxns := n }) ∨
    ∃ proof, pq.eligibleProof excluded (sortKey, batch) = some proof ∧
      ((keep = false ∧ v' = { v with full := true }) ∨
        (pq.Admits maxTxns maxTxnsAfterFiltering maxBytes blockTimestamp sortKey batch proof v v' ∧
          (keep = false → v'.full = true))) := by
  unfold visitBatch at h
  by_cases ex : batch ∈ excluded
  · rw [if_pos ex] at h
    simp only [Option.bind_eq_bind, Option.bind_eq_some_iff, Option.pure_def, Option.some.injEq,
      Prod.mk.injEq] at h
    obtain ⟨n, -, rfl, rfl⟩ := h
    exact .inl ⟨by simp [eligibleProof, ex], rfl, n, rfl⟩
  · rw [if_neg ex] at h
    cases found : pq.batchToProof.get sortKey.batchKey with
    | none =>
        rw [found] at h
        obtain ⟨rfl, rfl⟩ := Prod.mk.inj (Option.some.inj h)
        exact .inl ⟨by simp [eligibleProof, ex, found], rfl, v.excludedTxns, rfl⟩
    | some entry =>
        cases entry with
        | none =>
            rw [found] at h
            obtain ⟨rfl, rfl⟩ := Prod.mk.inj (Option.some.inj h)
            exact .inl ⟨by simp [eligibleProof, ex, found], rfl, v.excludedTxns, rfl⟩
        | some proof =>
            rw [found] at h
            refine .inr ⟨proof, by simp [eligibleProof, ex, found], ?_⟩
            simp only [Option.bind_eq_bind, Option.bind_eq_some_iff, Option.pure_def] at h
            obtain ⟨uniqueTxns, hUnique, curBytes, hBytes, h⟩ := h
            rw [Checked.add_eq_some] at hUnique hBytes
            by_cases overLimits : maxBytes < curBytes ∨ maxTxnsAfterFiltering < uniqueTxns
            · -- the bytes or the prospective count would pass their limit
              rw [if_pos overLimits] at h
              obtain ⟨rfl, rfl⟩ := Prod.mk.inj (Option.some.inj h)
              exact .inl ⟨rfl, rfl⟩
            · rw [if_neg overLimits] at h
              simp only [Option.bind_eq_some_iff] at h
              obtain ⟨curAllTxns, hAll, h⟩ := h
              rw [Checked.add_eq_some] at hAll
              by_cases overTxns : maxTxns < curAllTxns
              · rw [if_pos overTxns] at h
                obtain ⟨rfl, rfl⟩ := Prod.mk.inj (Option.some.inj h)
                exact .inl ⟨rfl, rfl⟩
              · rw [if_neg overTxns] at h
                simp only [Option.bind_eq_some_iff] at h
                obtain ⟨curUniqueTxns, hCounted, h⟩ := h
                rw [Checked.add_eq_some] at hCounted
                have bound := pq.inserted_le_prospective blockTimestamp sortKey batch v.filteredTxns
                right
                -- the variables after an admission, stopped at a limit or not
                by_cases stop : curBytes = maxBytes ∨ curAllTxns = maxTxns ∨
                    curUniqueTxns = maxTxnsAfterFiltering ∨ softMaxTxnsAfterFiltering ≤ curUniqueTxns
                · rw [if_pos stop] at h
                  obtain ⟨rfl, rfl⟩ := Prod.mk.inj (Option.some.inj h)
                  exact ⟨⟨rfl, hBytes.2, by dsimp only; omega, hAll.2, by dsimp only; omega, hCounted.2, rfl,
                    by dsimp only; omega, by simp⟩,
                    fun _ => rfl⟩
                · rw [if_neg stop] at h
                  obtain ⟨rfl, rfl⟩ := Prod.mk.inj (Option.some.inj h)
                  exact ⟨⟨rfl, hBytes.2, by dsimp only; omega, hAll.2, by dsimp only; omega, hCounted.2, rfl,
                    by dsimp only; omega, by simp⟩,
                    fun refused => by cases refused⟩

end Visit

/-! ### The loop's invariant -/

section Invariant

theorem mem_authorIters {author : Author} {items : List (BatchSortKey × BatchInfo)} :
    (author, items) ∈ pq.authorIters ↔
      ∃ batches, pq.authorToBatches.get author = some batches ∧ items = batches.entries.reverse := by
  simp only [authorIters, List.mem_map, Prod.mk.injEq]
  constructor
  · rintro ⟨⟨author', batches⟩, mem, rfl, rfl⟩
    exact ⟨batches, SortedStore.get_eq_some_iff.mpr mem, rfl⟩
  · rintro ⟨batches, found, rfl⟩
    exact ⟨(author, batches), SortedStore.get_eq_some_iff.mp found, rfl, rfl⟩

theorem summariesOfProofs_append_single (proofs : List ProofOfStore) (proof : ProofOfStore) :
    pq.summariesOfProofs (proofs ++ [proof]) =
      pq.summariesOfProofs proofs ++ (pq.summariesOf (BatchKey.fromInfo proof.info)).getD [] := by
  simp [summariesOfProofs]

theorem uniqueTxnsOf_append_single (blockTimestamp : Nat) (proofs : List ProofOfStore) (proof : ProofOfStore) :
    pq.uniqueTxnsOf excluded blockTimestamp (proofs ++ [proof]) = pq.uniqueTxnsOf excluded blockTimestamp proofs +
      ((pq.summariesOf (BatchKey.fromInfo proof.info)).map fun txnSummaries =>
        (unexpired blockTimestamp (txnSummaries.toFinset \
          (pq.excludedSummaries excluded ∪ (pq.summariesOfProofs proofs).toFinset))).card).getD proof.info.numTxns := by
  unfold uniqueTxnsOf
  rw [summariesOfProofs_append_single, List.toFinset_append, card_unexpired_union, List.filter_append,
    List.map_append, List.sum_append]
  cases found : pq.summariesOf (BatchKey.fromInfo proof.info) with
  | none => simp [found, unexpired]; omega
  | some txnSummaries => simp [found]; omega

variable (maxTxns maxTxnsAfterFiltering maxBytes blockTimestamp : Nat)

/-- The state of the loop after the visits `visited` (author, batch under its
sort key, whether the iterator stayed): the proofs pushed are ones the pull
may take, the sums are theirs and within their limits, the filtered set holds
the excluded and the pushed summaries; each author's pushed proofs are the
takeable ones among its visited batches, but for a last one refused; and a
visit that let an iterator go left the pull full. -/
structure Pulled (visited : List (Author × (BatchSortKey × BatchInfo) × Bool)) (v : PullVars) : Prop where
  eligible : ∀ proof ∈ v.ret,
    proof.info ∉ excluded ∧ pq.batchToProof.get (BatchKey.fromInfo proof.info) = some (some proof)
  curBytes : v.curBytes = (v.ret.map (·.info.numBytes)).sum
  bytesWithin : v.curBytes ≤ maxBytes
  curAllTxns : v.curAllTxns = (v.ret.map (·.info.numTxns)).sum
  txnsWithin : v.curAllTxns ≤ maxTxns
  curUnique : v.curUniqueTxns = pq.uniqueTxnsOf excluded blockTimestamp v.ret
  uniqueWithin : v.curUniqueTxns ≤ maxTxnsAfterFiltering
  filtered : v.filteredTxns = pq.excludedSummaries excluded ∪ (pq.summariesOfProofs v.ret).toFinset
  ofAuthor : ∀ author, List.IsPrefix (v.ret.filter (·.info.author = author))
    ((doneOf visited author).filterMap (pq.eligibleProof excluded))
  allOfAuthor : ∀ author, (∀ w ∈ visited, w.1 = author → w.2.2 = true) →
    v.ret.filter (·.info.author = author) = (doneOf visited author).filterMap (pq.eligibleProof excluded)
  stopped : (∃ w ∈ visited, w.2.2 = false) → v.full = true

theorem pulled_start : pq.Pulled excluded maxTxns maxTxnsAfterFiltering maxBytes blockTimestamp [] (pq.pullStart excluded) :=
  ⟨by simp [pullStart], rfl, Nat.zero_le _, rfl, Nat.zero_le _, by simp [pullStart, uniqueTxnsOf, summariesOfProofs, unexpired],
    Nat.zero_le _, by simp [pullStart, summariesOfProofs], by simp [pullStart, doneOf], by simp [pullStart, doneOf],
    by simp⟩

variable {pq} {excluded maxTxns maxTxnsAfterFiltering maxBytes blockTimestamp}
variable {visited : List (Author × (BatchSortKey × BatchInfo) × Bool)} {v v' : PullVars} {i : Author}
  (x : BatchSortKey × BatchInfo) (keep : Bool)

theorem queued_of_next {orig : List (BatchSortKey × BatchInfo)} (mem : (i, orig) ∈ pq.authorIters)
    (next : List.IsPrefix (doneOf visited i ++ [x]) orig) :
    ∃ batches, pq.authorToBatches.get i = some batches ∧ batches.get x.1 = some x.2 := by
  obtain ⟨batches, found, rfl⟩ := (mem_authorIters pq).mp mem
  refine ⟨batches, found, SortedStore.get_eq_some_iff.mpr ?_⟩
  have seen : x ∈ batches.entries.reverse := next.subset (by simp)
  simpa using seen

theorem Pulled.ofAuthor_visit
    (hv : pq.Pulled excluded maxTxns maxTxnsAfterFiltering maxBytes blockTimestamp visited v)
    (allKept : ∀ w ∈ visited, w.1 = i → w.2.2 = true) {extra : List ProofOfStore}
    (pushed : v'.ret = v.ret ++ extra) (authors : ∀ proof ∈ extra, proof.info.author = i)
    (atMost : List.IsPrefix extra (pq.eligibleProof excluded x).toList)
    (whole : keep = true → extra = (pq.eligibleProof excluded x).toList) :
    (∀ author, List.IsPrefix (v'.ret.filter (·.info.author = author))
      ((doneOf (visited ++ [(i, x, keep)]) author).filterMap (pq.eligibleProof excluded))) ∧
    (∀ author, (∀ w ∈ visited ++ [(i, x, keep)], w.1 = author → w.2.2 = true) →
      v'.ret.filter (·.info.author = author) =
        (doneOf (visited ++ [(i, x, keep)]) author).filterMap (pq.eligibleProof excluded)) := by
  have noOther : ∀ author, author ≠ i → extra.filter (·.info.author = author) = [] := by
    intro author other
    rw [List.filter_eq_nil_iff]
    intro proof mem
    simp [authors proof mem, Ne.symm other]
  have allOfI : extra.filter (·.info.author = i) = extra := by
    rw [List.filter_eq_self]
    intro proof mem
    simp [authors proof mem]
  have before := hv.allOfAuthor i allKept
  constructor
  · intro author
    rw [pushed, List.filter_append, filterMap_doneOf_append_single]
    by_cases same : i = author
    · subst same
      rw [allOfI, before, if_pos rfl]
      exact List.prefix_append_right_inj _ |>.mpr atMost
    · rw [noOther author (Ne.symm same), if_neg same, List.append_nil, List.append_nil]
      exact hv.ofAuthor author
  · intro author keptAll
    rw [pushed, List.filter_append, filterMap_doneOf_append_single]
    by_cases same : i = author
    · subst same
      have stays : keep = true := keptAll (i, x, keep) (by simp) rfl
      rw [allOfI, before, if_pos rfl, whole stays]
    · rw [noOther author (Ne.symm same), if_neg same, List.append_nil, List.append_nil]
      refine hv.allOfAuthor author ?_
      intro w mem
      exact keptAll w (List.mem_append_left _ mem)

variable (wf : pq.WellFormed)
include wf

theorem eligibleProof_spec {author : Author} {batches : SortedStore BatchSortKey BatchInfo}
    {sortKey : BatchSortKey} {batch : BatchInfo} {proof : ProofOfStore}
    (found : pq.authorToBatches.get author = some batches) (queued : batches.get sortKey = some batch)
    (h : pq.eligibleProof excluded (sortKey, batch) = some proof) :
    proof.info = batch ∧ batch.author = author ∧ sortKey = BatchSortKey.fromInfo batch ∧
      proof.info ∉ excluded ∧ pq.batchToProof.get (BatchKey.fromInfo proof.info) = some (some proof) := by
  obtain ⟨keyed, byAuthor⟩ := wf.keyed author sortKey batch ⟨batches, found, queued⟩
  obtain ⟨entry, hasEntry, ofBatch⟩ := wf.proofOf author sortKey batch ⟨batches, found, queued⟩
  unfold eligibleProof at h
  by_cases ex : batch ∈ excluded
  · simp [ex] at h
  · simp only [ex, if_false, hasEntry] at h
    cases entry with
    | none => cases h
    | some proof' =>
        cases h
        have same := ofBatch _ rfl
        refine ⟨same, byAuthor, keyed, same ▸ ex, ?_⟩
        rw [same, ← hasEntry, keyed]
        rfl

variable (softMaxTxnsAfterFiltering : Nat)

theorem pulled_visit :
    Preserves (pq.Pulled excluded maxTxns maxTxnsAfterFiltering maxBytes blockTimestamp) pq.authorIters
      (fun entry => pq.visitBatch excluded maxTxns maxTxnsAfterFiltering softMaxTxnsAfterFiltering maxBytes
        blockTimestamp entry.1 entry.2) := by
  intro visited v i orig x keep v' mem next allKept hv visit
  obtain ⟨batches, found, queued⟩ := queued_of_next x mem next
  rcases pq.visitBatch_eq_some excluded maxTxns maxTxnsAfterFiltering softMaxTxnsAfterFiltering maxBytes
      blockTimestamp visit with ⟨skipped, rfl, n, rfl⟩ | ⟨proof, takeable, ⟨rfl, rfl⟩ | ⟨admits, stops⟩⟩
  · -- a batch the pull may not take: only the excluded count moves
    have perAuthor := Pulled.ofAuthor_visit x true hv allKept
      (show ({ v with excludedTxns := n } : PullVars).ret = v.ret ++ [] from (List.append_nil _).symm)
      (by simp) (by simp) (by simp [skipped])
    refine ⟨hv.eligible, hv.curBytes, hv.bytesWithin, hv.curAllTxns, hv.txnsWithin, hv.curUnique, hv.uniqueWithin,
      hv.filtered, perAuthor.1, perAuthor.2, ?_⟩
    rintro ⟨w, mem', refused⟩
    rcases List.mem_append.mp mem' with old | new
    · exact hv.stopped ⟨w, old, refused⟩
    · rw [List.mem_singleton.mp new] at refused
      cases refused
  · -- refused at a limit: nothing pushed, and the pull is full
    have perAuthor := Pulled.ofAuthor_visit x false hv allKept
      (show ({ v with full := true } : PullVars).ret = v.ret ++ [] from (List.append_nil _).symm)
      (by simp) List.nil_prefix (by simp)
    exact ⟨hv.eligible, hv.curBytes, hv.bytesWithin, hv.curAllTxns, hv.txnsWithin, hv.curUnique, hv.uniqueWithin,
      hv.filtered, perAuthor.1, perAuthor.2, fun _ => rfl⟩
  · -- admitted: the proof is of the batch seen, so its sums and summaries are the batch's
    obtain ⟨ofBatch, byAuthor, keyed, notExcluded, uncommitted⟩ := eligibleProof_spec wf found queued takeable
    have key : x.1.batchKey = BatchKey.fromInfo proof.info := by rw [keyed, ofBatch]; rfl
    have perAuthor := Pulled.ofAuthor_visit x keep hv allKept admits.ret
      (by simp [ofBatch, byAuthor]) (by simp [takeable]) (by simp [takeable])
    refine ⟨?_, ?_, admits.bytesWithin, ?_, admits.txnsWithin, ?_, admits.uniqueWithin, ?_, perAuthor.1,
      perAuthor.2, ?_⟩
    · intro p mem'
      rw [admits.ret] at mem'
      rcases List.mem_append.mp mem' with old | new
      · exact hv.eligible p old
      · rw [List.mem_singleton.mp new]
        exact ⟨notExcluded, uncommitted⟩
    · rw [admits.curBytes, admits.ret, hv.curBytes]
      simp [ofBatch]
    · rw [admits.curAllTxns, admits.ret, hv.curAllTxns]
      simp [ofBatch]
    · rw [admits.counted, admits.ret, uniqueTxnsOf_append_single, hv.curUnique, key, hv.filtered]
      cases pq.summariesOf (BatchKey.fromInfo proof.info) with
      | none => simp [ofBatch]
      | some txnSummaries => simp [insertCount_eq]
    · rw [admits.filtered, admits.ret, summariesOfProofs_append_single, key, hv.filtered]
      cases pq.summariesOf (BatchKey.fromInfo proof.info) with
      | none => simp
      | some txnSummaries => simp [insertCount_eq, List.toFinset_append, Finset.union_assoc]
    · rintro ⟨w, mem', refused⟩
      rcases List.mem_append.mp mem' with old | new
      · rcases admits.fullAfter with same | full
        · rw [same]
          exact hv.stopped ⟨w, old, refused⟩
        · exact full
      · rw [List.mem_singleton.mp new] at refused
        exact stops refused

/-! ### From the loop's end to what the pull returns -/

omit wf in
theorem authorIters_tags_nodup : (pq.authorIters.map Prod.fst).Nodup := by
  have same : pq.authorIters.map Prod.fst = pq.authorToBatches.entries.map Prod.fst := by
    simp [authorIters, Function.comp_def]
  rw [same]
  exact SortedStore.keys_nodup _

theorem eligibleProofs_descending (author : Author) :
    ((pq.eligibleProofs excluded author).map fun proof => BatchSortKey.fromInfo proof.info).Pairwise (· > ·) := by
  cases found : pq.authorToBatches.get author with
  | none => simp [eligibleProofs, found]
  | some batches =>
      simp only [eligibleProofs, found, Option.map_some, Option.getD_some]
      -- the proofs' keys are among the entries' keys, which fall
      have keys : ((batches.entries.reverse.filterMap (pq.eligibleProof excluded)).map
          fun proof => BatchSortKey.fromInfo proof.info).Sublist (batches.entries.reverse.map Prod.fst) := by
        apply map_filterMap_sublist
        intro entry mem proof takeable
        have queued : batches.get entry.1 = some entry.2 :=
          SortedStore.get_eq_some_iff.mpr (List.mem_reverse.mp mem)
        obtain ⟨ofBatch, -, keyed, -⟩ := eligibleProof_spec wf found queued takeable
        rw [ofBatch, ← keyed]
      refine List.Pairwise.sublist keys ?_
      rw [List.map_reverse, List.pairwise_reverse]
      exact SortedStore.keys_sorted batches

omit wf in
theorem Pulled.ofAuthor_end
    (hv : pq.Pulled excluded maxTxns maxTxnsAfterFiltering maxBytes blockTimestamp visited v)
    (yielded : ∀ i orig, (i, orig) ∈ pq.authorIters →
      List.IsPrefix (doneOf visited i) orig ∧ (doneOf visited i = orig ∨ ∃ x, (i, x, false) ∈ visited))
    (untouched : ∀ i, i ∉ pq.authorIters.map Prod.fst → doneOf visited i = []) (author : Author) :
    List.IsPrefix (v.ret.filter (·.info.author = author)) (pq.eligibleProofs excluded author) ∧
      (v.full = false → v.ret.filter (·.info.author = author) = pq.eligibleProofs excluded author) := by
  cases found : pq.authorToBatches.get author with
  | none =>
      -- an author without a queue was never visited, and has nothing to take
      have notTag : author ∉ pq.authorIters.map Prod.fst := by
        intro mem
        obtain ⟨⟨author', items⟩, mem', same⟩ := List.mem_map.mp mem
        obtain ⟨batches, found', -⟩ := (mem_authorIters pq).mp mem'
        simp only at same
        rw [same, found] at found'
        cases found'
      have nothing := hv.ofAuthor author
      rw [untouched author notTag, List.filterMap_nil, List.prefix_nil] at nothing
      simp [eligibleProofs, found, nothing]
  | some batches =>
      have mem : (author, batches.entries.reverse) ∈ pq.authorIters := (mem_authorIters pq).mpr ⟨batches, found, rfl⟩
      obtain ⟨started, whole⟩ := yielded author _ mem
      have takeable : pq.eligibleProofs excluded author =
          batches.entries.reverse.filterMap (pq.eligibleProof excluded) := by
        simp [eligibleProofs, found]
      rw [takeable]
      refine ⟨(hv.ofAuthor author).trans (started.filterMap _), ?_⟩
      intro notFull
      have noRefusal : ∀ w ∈ visited, w.2.2 = true := by
        intro w mem'
        cases kept : w.2.2
        · have full := hv.stopped ⟨w, mem', kept⟩
          rw [notFull] at full
          cases full
        · rfl
      rcases whole with all | ⟨x, refused⟩
      · rw [hv.allOfAuthor author (fun w mem' _ => noRefusal w mem'), all]
      · have kept := noRefusal _ refused
        cases kept

omit wf in
theorem uniqueTxnsOf_perm {proofs proofs' : List ProofOfStore} (perm : proofs.Perm proofs') :
    pq.uniqueTxnsOf excluded blockTimestamp proofs = pq.uniqueTxnsOf excluded blockTimestamp proofs' := by
  have summaries : (pq.summariesOfProofs proofs).toFinset = (pq.summariesOfProofs proofs').toFinset :=
    List.toFinset_eq_of_perm _ _ (perm.flatMap_right _)
  unfold uniqueTxnsOf
  rw [summaries, ((perm.filter _).map _).sum_eq]

omit wf in
theorem pullLaws_nil (notFull : Bool) :
    pq.PullLaws excluded maxTxns maxTxnsAfterFiltering maxBytes blockTimestamp false [] 0 notFull :=
  ⟨List.nodup_nil, by simp, by simp, by simp, Nat.zero_le _,
    by simp [uniqueTxnsOf, summariesOfProofs, unexpired], by simp, by simp, fun _ returned => by cases returned⟩

theorem pullLaws_of_end
    (hv : pq.Pulled excluded maxTxns maxTxnsAfterFiltering maxBytes blockTimestamp visited v)
    (ofAuthor : ∀ author,
      List.IsPrefix (v.ret.filter (·.info.author = author)) (pq.eligibleProofs excluded author) ∧
        (v.full = false → v.ret.filter (·.info.author = author) = pq.eligibleProofs excluded author))
    (returnNonFull : Bool) :
    pq.PullLaws excluded maxTxns maxTxnsAfterFiltering maxBytes blockTimestamp returnNonFull
      (sortByGasDesc v.ret) v.curUniqueTxns (!v.full) := by
  have perm : (sortByGasDesc v.ret).Perm v.ret := List.perm_insertionSort _ _
  have descending : ∀ author, ((v.ret.filter (·.info.author = author)).map
      fun proof => BatchSortKey.fromInfo proof.info).Pairwise (· > ·) := fun author =>
    (eligibleProofs_descending wf author).sublist ((ofAuthor author).1.map _).sublist
  -- the sort is stable, and within an author the gas buckets already fall
  have sameFilter : ∀ author, (sortByGasDesc v.ret).filter (·.info.author = author) =
      v.ret.filter (·.info.author = author) := by
    intro author
    apply filter_insertionSort_of_pairwise
    exact (List.pairwise_map.mp (descending author)).imp fun later => BatchSortKey.gasBucketStart_le_of_lt later
  refine ⟨?_, ?_, ?_, ?_, hv.uniqueWithin, ?_, ?_, ?_, ?_⟩
  · rw [perm.nodup_iff]
    apply nodup_of_filter_nodup fun proof => proof.info.author
    intro author
    exact List.Nodup.of_map _ ((descending author).imp ne_of_gt)
  · intro proof mem
    exact hv.eligible proof (perm.mem_iff.mp mem)
  · rw [(perm.map _).sum_eq, ← hv.curBytes]
    exact hv.bytesWithin
  · rw [(perm.map _).sum_eq, ← hv.curAllTxns]
    exact hv.txnsWithin
  · rw [uniqueTxnsOf_perm perm]
    exact hv.curUnique
  · intro author
    rw [sameFilter author]
    exact descending author
  · intro author
    rw [sameFilter author]
    exact (ofAuthor author).1
  · intro notFull _ author
    rw [sameFilter author]
    exact (ofAuthor author).2 (by simpa using notFull)

/-- The laws of `pull_proofs` on a well-formed queue, for every excluded set,
limits, timestamp and shuffles. -/
theorem pullProofs_laws_of_wellFormed
    {shuffles : Shuffles (Author × List (BatchSortKey × BatchInfo))} {returnNonFull : Bool}
    {proofs : List ProofOfStore} {uniqueTxns : Nat} {notFull : Bool}
    (h : pq.pullProofs excluded maxTxns maxTxnsAfterFiltering softMaxTxnsAfterFiltering maxBytes blockTimestamp
      shuffles returnNonFull = some (proofs, uniqueTxns, notFull)) :
    pq.PullLaws excluded maxTxns maxTxnsAfterFiltering maxBytes blockTimestamp returnNonFull proofs uniqueTxns notFull := by
  unfold pullProofs at h
  simp only [Option.bind_eq_bind, Option.bind_eq_some_iff] at h
  obtain ⟨⟨rest, v⟩, ran, h⟩ := h
  obtain ⟨-, visited, hv, yielded, untouched⟩ :=
    rounds_yield authorIters_tags_nodup (pulled_visit wf softMaxTxnsAfterFiltering)
      (pulled_start pq excluded maxTxns maxTxnsAfterFiltering maxBytes blockTimestamp) (Nat.lt_succ_self _) ran
  have ofAuthor := hv.ofAuthor_end yielded untouched
  by_cases returned : (v.full || returnNonFull) = true
  · rw [if_pos returned] at h
    simp only [Option.pure_def, Option.some.injEq, Prod.mk.injEq] at h
    obtain ⟨rfl, rfl, rfl⟩ := h
    exact pullLaws_of_end wf hv ofAuthor returnNonFull
  · -- not full, and `return_non_full` unset: nothing is returned
    rw [if_neg returned] at h
    simp only [Bool.or_eq_true, not_or, Bool.not_eq_true] at returned
    obtain ⟨-, rfl⟩ := returned
    simp only [Option.pure_def, Option.some.injEq, Prod.mk.injEq] at h
    obtain ⟨rfl, rfl, rfl⟩ := h
    exact pullLaws_nil _

end Invariant

end ProofQueue

end GravitySdk.QuorumStore.Utils
