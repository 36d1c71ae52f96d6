/- The reputation anchor of ConsensusDB.
   digest: get_reputation_anchor walks the ledger infos from the highest block
   number down and answers with the first that anchors the target epoch and
   round, skipping boundary ledger infos without EpochBlockInfo, and breaking
   once the epochs fall two below the target.  With epochs that do not
   decrease with the key and next epochs at most one ahead, the break never
   changes the answer of the full scan. -/

import GravitySdk.ConsensusDb.Schema

set_option autoImplicit false
set_option relaxedAutoImplicit false

namespace GravitySdk.ConsensusDb

open GravitySdk.Lib

/-- `CommittedBlockAnchor`. -/
structure CommittedBlockAnchor where
  blockNumber : Nat
  timestampUsecs : Nat
  blockHash : HashValue
  deriving DecidableEq, Repr

/-- The anchor of the block that changed the epoch, from its `EpochBlockInfo`. -/
def epochBlockAnchor (info : BlockBuffer.EpochBlockInfo) : CommittedBlockAnchor :=
  ⟨info.blockNumber, info.epochStartTimestampUsecs, info.blockHash⟩

/-- The anchor of a ledger info from its own fields. -/
def LedgerInfo.ownAnchor (li : LedgerInfo) : CommittedBlockAnchor :=
  ⟨li.blockNumber, li.timestampUsecs, li.blockHash⟩

/-- `next_epoch_state().is_some_and(|s| s.epoch == target_epoch)`: the
post-state of the ledger info starts the target epoch. -/
def CommitInfo.startsEpoch (ci : CommitInfo) (targetEpoch : Nat) : Bool :=
  ci.nextEpochState.any fun s => s.epoch == targetEpoch

/-- The loop of `get_reputation_anchor` over the ledger infos, highest block
number first. -/
def anchorScan (targetEpoch targetRound : Nat) : List (Nat × LedgerInfo) → Option CommittedBlockAnchor
  | [] => none
  | (_, li) :: rest =>
      if li.commitInfo.startsEpoch targetEpoch then
        match li.commitInfo.epochBlockInfo with
        | some info => some (epochBlockAnchor info)
        -- a boundary ledger info without EpochBlockInfo is skipped (`continue`)
        | none => anchorScan targetEpoch targetRound rest
      else if li.commitInfo.nextEpochState.isNone ∧ li.commitInfo.epoch = targetEpoch ∧
          li.commitInfo.round ≤ targetRound then some li.ownAnchor
      -- `commit_info.epoch().saturating_add(1) < target_epoch`
      else if min (li.commitInfo.epoch + 1) u64Max < targetEpoch then none
      else anchorScan targetEpoch targetRound rest

namespace ConsensusDB

/-- `ConsensusDB::get_reputation_anchor`. -/
def getReputationAnchor (db : ConsensusDB) (targetEpoch targetRound : Nat) : Option CommittedBlockAnchor :=
  anchorScan targetEpoch targetRound db.ledgerInfo.entries.reverse

end ConsensusDB

/-- What one ledger info answers in a full scan: the anchor of its
EpochBlockInfo when its post-state starts the target epoch, its own fields
when it ends no epoch and is of the target epoch and at most the target round,
and nothing otherwise. -/
def anchorFor (targetEpoch targetRound : Nat) (li : LedgerInfo) : Option CommittedBlockAnchor :=
  if li.commitInfo.startsEpoch targetEpoch then li.commitInfo.epochBlockInfo.map epochBlockAnchor
  else if li.commitInfo.nextEpochState.isNone ∧ li.commitInfo.epoch = targetEpoch ∧
      li.commitInfo.round ≤ targetRound then some li.ownAnchor
  else none

namespace ConsensusDB

/-- The full descending scan: the answer of the first ledger info, highest
block number first, that has one. -/
def fullAnchorScan (db : ConsensusDB) (targetEpoch targetRound : Nat) : Option CommittedBlockAnchor :=
  db.ledgerInfo.entries.reverse.findSome? fun x => anchorFor targetEpoch targetRound x.2

/-- Commit epochs do not decrease with the block-number key. -/
def EpochsMonotone (db : ConsensusDB) : Prop :=
  db.ledgerInfo.entries.Pairwise fun a b => a.2.commitInfo.epoch ≤ b.2.commitInfo.epoch

/-- The post-state of a ledger info starts at most the next epoch. -/
def NextEpochsAdjacent (db : ConsensusDB) : Prop :=
  ∀ x ∈ db.ledgerInfo.entries,
    x.2.commitInfo.nextEpochState.all fun s => s.epoch ≤ x.2.commitInfo.epoch + 1

instance (db : ConsensusDB) : Decidable db.EpochsMonotone :=
  inferInstanceAs (Decidable (List.Pairwise _ _))

instance (db : ConsensusDB) : Decidable db.NextEpochsAdjacent :=
  inferInstanceAs (Decidable (∀ x ∈ db.ledgerInfo.entries, _))

end ConsensusDB

section Scan

open ConsensusDB

variable {targetEpoch targetRound : Nat}

/-- A ledger info answers only for the epoch its post-state starts, or when
its post-state starts none. -/
theorem anchorFor_nextEpoch {li : LedgerInfo} {a : CommittedBlockAnchor}
    (h : anchorFor targetEpoch targetRound li = some a) :
    ∀ s, li.commitInfo.nextEpochState = some s → s.epoch = targetEpoch := by
  intro s hs
  unfold anchorFor at h
  by_cases starts : li.commitInfo.startsEpoch targetEpoch = true
  · simpa [CommitInfo.startsEpoch, hs] using starts
  · rw [if_neg starts] at h
    split at h
    · rename_i own
      simp [hs] at own
    · cases h

theorem anchorFor_eq_none_of_below {li : LedgerInfo} {E : Nat}
    (adj : li.commitInfo.nextEpochState.all (fun s => s.epoch ≤ li.commitInfo.epoch + 1) = true)
    (low : li.commitInfo.epoch ≤ E) (brk : min (E + 1) u64Max < targetEpoch) (he : targetEpoch ≤ u64Max) :
    anchorFor targetEpoch targetRound li = none := by
  have below : li.commitInfo.epoch + 1 < targetEpoch := by
    rcases Nat.le_total (E + 1) u64Max with small | big
    · rw [Nat.min_eq_left small] at brk
      omega
    · rw [Nat.min_eq_right big] at brk
      omega
  have notStarts : ¬ li.commitInfo.startsEpoch targetEpoch = true := by
    cases hs : li.commitInfo.nextEpochState with
    | none => simp [CommitInfo.startsEpoch, hs]
    | some s =>
        have : s.epoch ≤ li.commitInfo.epoch + 1 := by simpa [hs] using adj
        simp only [CommitInfo.startsEpoch, hs, Option.any_some, beq_iff_eq]
        omega
  have notOwn : ¬ (li.commitInfo.nextEpochState.isNone ∧ li.commitInfo.epoch = targetEpoch ∧
      li.commitInfo.round ≤ targetRound) := fun ⟨_, heq, _⟩ => by omega
  rw [anchorFor, if_neg notStarts, if_neg notOwn]

/-- The loop and the full scan agree on a list whose epochs do not increase
and whose next epochs are at most one ahead: after the break, no ledger info
can answer. -/
theorem anchorScan_eq_findSome (he : targetEpoch ≤ u64Max) :
    ∀ l : List (Nat × LedgerInfo),
      l.Pairwise (fun a b => b.2.commitInfo.epoch ≤ a.2.commitInfo.epoch) →
      (∀ x ∈ l, x.2.commitInfo.nextEpochState.all (fun s => s.epoch ≤ x.2.commitInfo.epoch + 1) = true) →
      anchorScan targetEpoch targetRound l = l.findSome? fun x => anchorFor targetEpoch targetRound x.2
  | [], _, _ => rfl
  | (k, li) :: rest, sorted, adj => by
      have ih := anchorScan_eq_findSome he rest sorted.of_cons fun x hx => adj x (List.mem_cons_of_mem _ hx)
      rw [List.findSome?_cons]
      unfold anchorScan
      by_cases starts : li.commitInfo.startsEpoch targetEpoch = true
      · -- a boundary ledger info of the target: its EpochBlockInfo, else skipped
        rw [if_pos starts]
        cases hinfo : li.commitInfo.epochBlockInfo with
        | some info => simp [anchorFor, starts, hinfo]
        | none => simp [anchorFor, starts, hinfo, ih]
      · rw [if_neg starts]
        by_cases own : li.commitInfo.nextEpochState.isNone ∧ li.commitInfo.epoch = targetEpoch ∧
            li.commitInfo.round ≤ targetRound
        · simp [anchorFor, starts, own]
        · have none_here : anchorFor targetEpoch targetRound li = none := by
            rw [anchorFor, if_neg starts, if_neg own]
          rw [if_neg own, none_here]
          by_cases brk : min (li.commitInfo.epoch + 1) u64Max < targetEpoch
          · -- the break: every later ledger info is at most at this epoch
            rw [if_pos brk]
            symm
            rw [List.findSome?_eq_none_iff]
            intro x hx
            exact anchorFor_eq_none_of_below (adj x (List.mem_cons_of_mem _ hx))
              (List.rel_of_pairwise_cons sorted hx) brk he
          · rw [if_neg brk]
            exact ih

/-- What the loop answers, some ledger info of the list answers. -/
theorem anchorScan_source : ∀ {l : List (Nat × LedgerInfo)} {a : CommittedBlockAnchor},
    anchorScan targetEpoch targetRound l = some a → ∃ x ∈ l, anchorFor targetEpoch targetRound x.2 = some a
  | [], _, h => by cases h
  | (k, li) :: rest, a, h => by
      unfold anchorScan at h
      by_cases starts : li.commitInfo.startsEpoch targetEpoch = true
      · rw [if_pos starts] at h
        cases hinfo : li.commitInfo.epochBlockInfo with
        | some info =>
            rw [hinfo] at h
            cases h
            exact ⟨(k, li), List.mem_cons_self, by simp [anchorFor, starts, hinfo]⟩
        | none =>
            rw [hinfo] at h
            obtain ⟨x, hx, answers⟩ := anchorScan_source h
            exact ⟨x, List.mem_cons_of_mem _ hx, answers⟩
      · rw [if_neg starts] at h
        by_cases own : li.commitInfo.nextEpochState.isNone ∧ li.commitInfo.epoch = targetEpoch ∧
            li.commitInfo.round ≤ targetRound
        · rw [if_pos own] at h
          cases h
          exact ⟨(k, li), List.mem_cons_self, by rw [anchorFor, if_neg starts, if_pos own]⟩
        · rw [if_neg own] at h
          split at h
          · cases h
          · obtain ⟨x, hx, answers⟩ := anchorScan_source h
            exact ⟨x, List.mem_cons_of_mem _ hx, answers⟩

end Scan

section Anchor

open ConsensusDB

/-- `get_reputation_anchor` answers as the full descending scan when commit
epochs do not decrease with the key and each post-state starts at most the
next epoch; and its answer always comes from a stored ledger info that answers
for the target, whose post-state, if any, starts the target epoch. -/
theorem getReputationAnchor_eq_full_scan (db : ConsensusDB) (targetEpoch targetRound : Nat)
    (mono : db.EpochsMonotone) (adj : db.NextEpochsAdjacent) (he : targetEpoch ≤ u64Max) :
    db.getReputationAnchor targetEpoch targetRound = db.fullAnchorScan targetEpoch targetRound ∧
    ∀ a, db.getReputationAnchor targetEpoch targetRound = some a →
      ∃ x ∈ db.ledgerInfo.entries, anchorFor targetEpoch targetRound x.2 = some a ∧
        ∀ s, x.2.commitInfo.nextEpochState = some s → s.epoch = targetEpoch := by
  constructor
  · -- highest key first, the epochs do not increase
    have descending : db.ledgerInfo.entries.reverse.Pairwise
        (fun a b => b.2.commitInfo.epoch ≤ a.2.commitInfo.epoch) := List.pairwise_reverse.mpr mono
    exact anchorScan_eq_findSome he _ descending fun x hx => adj x (List.mem_reverse.mp hx)
  · intro a h
    obtain ⟨x, hx, answers⟩ := anchorScan_source h
    exact ⟨x, List.mem_reverse.mp hx, answers, anchorFor_nextEpoch answers⟩

/-- The ledger infos of test_reputation_anchor_uses_lagged_commit_and_epoch_boundary:
epoch 1 at block 90, the boundary into epoch 2 at block 100 with its
EpochBlockInfo, epoch 2 at blocks 110 and 120, and a legacy boundary into
epoch 3 at block 130.  For epoch 2 and round 5 the anchor is the epoch-change
block. -/
theorem getReputationAnchor_eq_full_scan_on_test_ledger :
    let li (epoch round ts : Nat) (next : Option Consensus.EpochState)
        (info : Option BlockBuffer.EpochBlockInfo) (number hash : Nat) : LedgerInfo :=
      ⟨⟨epoch, round, ts, next, info⟩, number, hash⟩
    let db : ConsensusDB :=
      { block := ⟨⟨[]⟩, by decide⟩
        qc := ⟨⟨[]⟩, by decide⟩
        blockNumber := ⟨⟨[]⟩, by decide⟩
        ledgerInfo := ⟨⟨[(90, li 1 40 900 none none 90 1),
          (100, li 1 50 1100 (some ⟨2, 0⟩) (some ⟨7, 100, 50, 1000, 2⟩) 105 3),
          (110, li 2 10 1100 none none 110 4), (120, li 2 30 1300 none none 120 5),
          (130, li 2 50 1500 (some ⟨3, 0⟩) none 130 6)]⟩, by decide⟩
        epochByBlockNumber := ⟨⟨[]⟩, by decide⟩
        randomness := ⟨⟨[]⟩, by decide⟩
        lastVote := none
        highest2ChainTimeoutCert := none }
    db.EpochsMonotone ∧ db.NextEpochsAdjacent ∧ 2 ≤ u64Max ∧
      db.getReputationAnchor 2 5 = db.fullAnchorScan 2 5 ∧
      db.getReputationAnchor 2 5 = some ⟨100, 1000, 2⟩ := by
  intro li db
  have mono : db.EpochsMonotone := by decide
  have adj : db.NextEpochsAdjacent := by decide
  have he : 2 ≤ u64Max := by decide
  exact ⟨mono, adj, he, (getReputationAnchor_eq_full_scan db 2 5 mono adj he).1, by decide⟩

/-- A boundary ledger info of epoch 1 whose post-state starts epoch 5, below a
ledger info of epoch 2: commit epochs do not decrease, yet for epoch 5 the
loop breaks at epoch 2 (2 + 1 < 5) before it reaches the boundary that the
full scan answers with. -/
example :
    let db : ConsensusDB :=
      { block := ⟨⟨[]⟩, by decide⟩
        qc := ⟨⟨[]⟩, by decide⟩
        blockNumber := ⟨⟨[]⟩, by decide⟩
        ledgerInfo := ⟨⟨[(10, ⟨⟨1, 0, 0, some ⟨5, 0⟩, some ⟨1, 10, 0, 0, 7⟩⟩, 10, 7⟩),
          (20, ⟨⟨2, 0, 0, none, none⟩, 20, 8⟩)]⟩, by decide⟩
        epochByBlockNumber := ⟨⟨[]⟩, by decide⟩
        randomness := ⟨⟨[]⟩, by decide⟩
        lastVote := none
        highest2ChainTimeoutCert := none }
    db.EpochsMonotone ∧ db.getReputationAnchor 5 0 = none ∧ db.fullAnchorScan 5 0 = some ⟨10, 0, 7⟩ := by
  decide

end Anchor

end GravitySdk.ConsensusDb
