/- Unwinding ConsensusDB to a block number.
   digest: unwind_to_block walks the epochs from get_max_epoch down to 1,
   deleting the blocks whose number is unknown or above target + 1, and stops
   after an epoch that keeps all its blocks; then it deletes the entries keyed
   by block number from target + 1 up to u64::MAX excluded, and the last vote
   and timeout certificate, all in one batch.  What the batch deletes is
   characterised key by key. -/

import GravitySdk.ConsensusDb.Schema

set_option autoImplicit false
set_option relaxedAutoImplicit false

namespace GravitySdk.ConsensusDb

open GravitySdk.Lib

/-- The batches of a block's payload, none without a payload. -/
def Block.batchKeys (b : Block) : List BatchKey := (b.payload.map Payload.batchKeys).getD []

/-- `keep` of unwind_to_block: a block is kept when its number is at most
`target_block_number + 1`, an addition that panics at `u64::MAX` (`none`); a
block without a number is deleted. -/
def keep (targetBlockNumber : Nat) : Option Nat → Option Bool
  | some num =>
      if u64Max < targetBlockNumber + 1 then none else some (decide (num ≤ targetBlockNumber + 1))
  | none => some false

namespace ConsensusDB

/-- The blocks of one epoch as unwind reads them: `get_range` of BlockSchema
from `(epoch, 0)` up to `(epoch, 0xff..ff)` excluded, each value decoded. -/
def epochBlocks (db : ConsensusDB) (epoch : Nat) : List (EpochKey × Block) :=
  (db.block.range (toLex (epoch, 0)) (toLex (epoch, hashMax))).map fun e => (e.1, e.2.decode)

/-- The block number unwind reads for a block: the decoded block's own, else
the one BlockNumberSchema stores under its key. -/
def blockNumberOf (db : ConsensusDB) (key : EpochKey) (block : Block) : Option Nat :=
  match block.blockNumber with
  | some n => some n
  | none => db.blockNumber.get key

/-- The loop over one epoch's blocks: the keys it deletes from BlockSchema,
QCSchema and BlockNumberSchema, and the batches of their payloads. -/
def scanEpoch (db : ConsensusDB) (targetBlockNumber : Nat) :
    List (EpochKey × Block) → Option (List EpochKey × List BatchKey)
  | [] => some ([], [])
  | (key, block) :: rest => do
      let kept ← keep targetBlockNumber (db.blockNumberOf key block)
      let (keys, batches) ← db.scanEpoch targetBlockNumber rest
      if kept then pure (keys, batches) else pure (key :: keys, block.batchKeys ++ batches)

/-- Step 1 of unwind_to_block, over the epochs from `epoch` down to 1: an
empty epoch is skipped, and an epoch that deletes none of its blocks
(`all_blocks_kept`) ends the walk. -/
def unwindEpochs (db : ConsensusDB) (targetBlockNumber : Nat) :
    Nat → Option (List EpochKey × List BatchKey)
  | 0 => some ([], [])
  | epoch + 1 =>
      let blocks := db.epochBlocks (epoch + 1)
      if blocks.isEmpty then db.unwindEpochs targetBlockNumber epoch
      else do
        let (keys, batches) ← db.scanEpoch targetBlockNumber blocks
        if keys.isEmpty then pure ([], [])
        else
          let (keys', batches') ← db.unwindEpochs targetBlockNumber epoch
          pure (keys ++ keys', batches ++ batches')

/-- `ConsensusDB::unwind_to_block`: the database once the batch is committed,
the batches of the deleted blocks' payloads, and the epochs that no longer
have a block.  `none` is the panic of `keep`; the refresh of the in-memory
latest ledger info is left out. -/
def unwindToBlock (db : ConsensusDB) (targetBlockNumber : Nat) :
    Option (ConsensusDB × List BatchKey × List Nat) := do
  let maxEpoch := db.getMaxEpoch
  let (blockKeys, batchesToDelete) ← db.unwindEpochs targetBlockNumber maxEpoch
  -- step 2: from `target_block_number.saturating_add(1)` up to `u64::MAX` excluded
  let rangeStart := min (targetBlockNumber + 1) u64Max
  let ledgerKeys := (db.ledgerInfo.range rangeStart u64Max).map Prod.fst
  let epochKeys := (db.epochByBlockNumber.range rangeStart u64Max).map Prod.fst
  let randomnessKeys := (db.randomness.range rangeStart u64Max).map Prod.fst
  let unwound : ConsensusDB :=
    { block := db.block.deleteAll blockKeys
      qc := db.qc.deleteAll blockKeys
      blockNumber := db.blockNumber.deleteAll blockKeys
      ledgerInfo := db.ledgerInfo.deleteAll ledgerKeys
      epochByBlockNumber := db.epochByBlockNumber.deleteAll epochKeys
      randomness := db.randomness.deleteAll randomnessKeys
      lastVote := none
      highest2ChainTimeoutCert := none }
  let maxRetainedEpoch := unwound.getMaxEpoch
  let cancelledEpochs :=
    if maxEpoch > maxRetainedEpoch then List.range' (maxRetainedEpoch + 1) (maxEpoch - maxRetainedEpoch)
    else []
  pure (unwound, batchesToDelete, cancelledEpochs)

/-- Whether unwind keeps a block of this number, once `target + 1` is known
not to overflow. -/
def Kept (targetBlockNumber : Nat) : Option Nat → Bool
  | some num => decide (num ≤ targetBlockNumber + 1)
  | none => false

/-- Epoch `e` ends the walk of step 1: it has blocks in range and keeps them
all. -/
def StopsAt (db : ConsensusDB) (targetBlockNumber e : Nat) : Prop :=
  db.epochBlocks e ≠ [] ∧ ∀ x ∈ db.epochBlocks e, Kept targetBlockNumber (db.blockNumber.get x.1) = true

/-- The keys that step 1 deletes when it starts from epoch `maxEpoch`: a
stored block under an id below `0xff..ff`, in an epoch from 1 to `maxEpoch`,
that is not kept, with no epoch above its own and up to `maxEpoch` that ends
the walk. -/
structure Unwound (db : ConsensusDB) (targetBlockNumber maxEpoch : Nat) (key : EpochKey) : Prop where
  stored : ∃ b, (key, b) ∈ db.block.entries
  idBelow : (ofLex key).2 < hashMax
  epochPos : 1 ≤ (ofLex key).1
  epochLe : (ofLex key).1 ≤ maxEpoch
  notKept : Kept targetBlockNumber (db.blockNumber.get key) = false
  noStop : ∀ e, (ofLex key).1 < e → e ≤ maxEpoch → ¬ db.StopsAt targetBlockNumber e

/-- The keys that the scan of epoch `e` deletes. -/
def droppedKeys (db : ConsensusDB) (targetBlockNumber e : Nat) : List EpochKey :=
  ((db.epochBlocks e).filter fun x => !Kept targetBlockNumber (db.blockNumberOf x.1 x.2)).map Prod.fst

/-- Block numbers do not decrease from an epoch to a later one. -/
def NumbersMonotone (db : ConsensusDB) : Prop :=
  ∀ (k k' : EpochKey) (n n' : Nat), db.blockNumber.get k = some n → db.blockNumber.get k' = some n' →
    (ofLex k).1 < (ofLex k').1 → n ≤ n'

end ConsensusDB

section Scan

open ConsensusDB

variable {db : ConsensusDB} {target : Nat}

theorem keep_eq_some {bn : Option Nat} {kept : Bool} (h : keep target bn = some kept) :
    kept = Kept target bn := by
  cases bn with
  | none =>
      cases h
      rfl
  | some num =>
      simp only [keep] at h
      split at h
      · cases h
      · cases h
        rfl

theorem keep_of_lt (h : target < u64Max) (bn : Option Nat) : keep target bn = some (Kept target bn) := by
  cases bn with
  | none => rfl
  | some num =>
      have : ¬ u64Max < target + 1 := by omega
      simp [keep, Kept, this]

@[simp] theorem blockNumberOf_decode (key : EpochKey) (b : Block) :
    db.blockNumberOf key b.decode = db.blockNumber.get key := rfl

theorem scanEpoch_keys {blocks : List (EpochKey × Block)} {keys : List EpochKey} {batches : List BatchKey}
    (h : db.scanEpoch target blocks = some (keys, batches)) :
    keys = (blocks.filter fun x => !Kept target (db.blockNumberOf x.1 x.2)).map Prod.fst := by
  induction blocks generalizing keys batches with
  | nil =>
      cases h
      rfl
  | cons x rest ih =>
      obtain ⟨key, block⟩ := x
      simp only [scanEpoch, Option.bind_eq_bind] at h
      cases hk : keep target (db.blockNumberOf key block) with
      | none => simp [hk] at h
      | some kept =>
          cases hr : db.scanEpoch target rest with
          | none => simp [hk, hr] at h
          | some r =>
              obtain ⟨keys', batches'⟩ := r
              rw [keep_eq_some hk] at hk
              have rest_keys := ih hr
              cases hkept : Kept target (db.blockNumberOf key block) <;>
                simp [hk, hr, hkept] at h <;> simp [hkept, ← h.1, rest_keys]

theorem scanEpoch_isSome (h : target < u64Max) (blocks : List (EpochKey × Block)) :
    (db.scanEpoch target blocks).isSome := by
  induction blocks with
  | nil => rfl
  | cons x rest ih =>
      obtain ⟨key, block⟩ := x
      obtain ⟨⟨keys, batches⟩, hr⟩ := Option.isSome_iff_exists.mp ih
      cases hkept : Kept target (db.blockNumberOf key block) <;>
        simp [scanEpoch, keep_of_lt h, hr, hkept]

theorem inEpochRange_iff {e : Nat} {key : EpochKey} :
    (toLex (e, 0) ≤ key ∧ key < toLex (e, hashMax)) ↔ (ofLex key).1 = e ∧ (ofLex key).2 < hashMax := by
  rw [Prod.Lex.le_iff, Prod.Lex.lt_iff]
  simp only [ofLex_toLex, Nat.zero_le, and_true]
  obtain ⟨epoch, id⟩ := ofLex key
  constructor
  · rintro ⟨h1, h2⟩
    simp only at h1 h2 ⊢
    rcases h2 with h2 | ⟨rfl, hid⟩
    · omega
    · exact ⟨rfl, hid⟩
  · rintro ⟨rfl, hid⟩
    simp [hid]

theorem mem_epochBlocks {e : Nat} {x : EpochKey × Block} :
    x ∈ db.epochBlocks e ↔
      ∃ b, (x.1, b) ∈ db.block.entries ∧ (ofLex x.1).1 = e ∧ (ofLex x.1).2 < hashMax ∧ x.2 = b.decode := by
  obtain ⟨key, b'⟩ := x
  simp only [epochBlocks, List.mem_map, SortedStore.mem_range, Prod.mk.injEq]
  constructor
  · rintro ⟨⟨k, b⟩, ⟨hmem, hrange⟩, rfl, rfl⟩
    exact ⟨b, hmem, inEpochRange_iff.mp hrange |>.1, inEpochRange_iff.mp hrange |>.2, rfl⟩
  · rintro ⟨b, hmem, he, hid, rfl⟩
    exact ⟨(key, b), ⟨hmem, inEpochRange_iff.mpr ⟨he, hid⟩⟩, rfl, rfl⟩

theorem mem_droppedKeys {e : Nat} {key : EpochKey} :
    key ∈ db.droppedKeys target e ↔
      (∃ b, (key, b) ∈ db.block.entries) ∧ (ofLex key).1 = e ∧ (ofLex key).2 < hashMax ∧
        Kept target (db.blockNumber.get key) = false := by
  simp only [droppedKeys, List.mem_map, List.mem_filter, Bool.not_eq_true', Prod.exists,
    exists_and_right, exists_eq_right]
  constructor
  · rintro ⟨b', hmem, hkept⟩
    obtain ⟨b, hb, he, hid, rfl⟩ := mem_epochBlocks.mp hmem
    exact ⟨⟨b, hb⟩, he, hid, by simpa using hkept⟩
  · rintro ⟨⟨b, hb⟩, he, hid, hkept⟩
    exact ⟨b.decode, mem_epochBlocks.mpr ⟨b, hb, he, hid, rfl⟩, by simpa using hkept⟩

theorem stopsAt_iff_droppedKeys_nil {e : Nat} (hne : db.epochBlocks e ≠ []) :
    db.StopsAt target e ↔ db.droppedKeys target e = [] := by
  constructor
  · rintro ⟨-, allKept⟩
    rw [List.eq_nil_iff_forall_not_mem]
    intro key hkey
    obtain ⟨⟨b, hb⟩, he, hid, notKept⟩ := mem_droppedKeys.mp hkey
    have kept := allKept (key, b.decode) (mem_epochBlocks.mpr ⟨b, hb, he, hid, rfl⟩)
    rw [notKept] at kept
    cases kept
  · intro hnil
    refine ⟨hne, fun x hx => ?_⟩
    obtain ⟨b, hb, he, hid, -⟩ := mem_epochBlocks.mp hx
    by_contra notKept
    have dropped : x.1 ∈ db.droppedKeys target e :=
      mem_droppedKeys.mpr ⟨⟨b, hb⟩, he, hid, by simpa using notKept⟩
    rw [hnil] at dropped
    cases dropped

end Scan

section Walk

open ConsensusDB

variable {db : ConsensusDB} {target : Nat}

theorem ConsensusDB.Unwound.restrict {maxEpoch : Nat} {key : EpochKey} (h : db.Unwound target (maxEpoch + 1) key)
    (le : (ofLex key).1 ≤ maxEpoch) : db.Unwound target maxEpoch key :=
  ⟨h.stored, h.idBelow, h.epochPos, le, h.notKept, fun e lt le' => h.noStop e lt (by omega)⟩

theorem ConsensusDB.Unwound.extend {maxEpoch : Nat} {key : EpochKey} (h : db.Unwound target maxEpoch key)
    (noStop : ¬ db.StopsAt target (maxEpoch + 1)) : db.Unwound target (maxEpoch + 1) key := by
  refine ⟨h.stored, h.idBelow, h.epochPos, by have := h.epochLe; omega, h.notKept, fun e lt le => ?_⟩
  rcases Nat.lt_or_ge e (maxEpoch + 1) with below | top
  · exact h.noStop e lt (by omega)
  · obtain rfl : e = maxEpoch + 1 := by omega
    exact noStop

theorem unwound_top_iff {maxEpoch : Nat} {key : EpochKey} (he : (ofLex key).1 = maxEpoch) (pos : 1 ≤ maxEpoch) :
    db.Unwound target maxEpoch key ↔ key ∈ db.droppedKeys target maxEpoch := by
  rw [mem_droppedKeys]
  constructor
  · intro hu
    exact ⟨hu.stored, he, hu.idBelow, hu.notKept⟩
  · rintro ⟨stored, -, hid, notKept⟩
    exact ⟨stored, hid, he ▸ pos, he.le, notKept, fun e lt le => absurd lt (by omega)⟩

theorem mem_unwindEpochs : ∀ {maxEpoch : Nat} {keys : List EpochKey} {batches : List BatchKey},
    db.unwindEpochs target maxEpoch = some (keys, batches) →
      ∀ key, key ∈ keys ↔ db.Unwound target maxEpoch key
  | 0, keys, batches, h, key => by
      cases h
      simp only [List.not_mem_nil, false_iff]
      intro hu
      have := hu.epochPos
      have := hu.epochLe
      omega
  | E + 1, keys, batches, h, key => by
      simp only [unwindEpochs] at h
      split at h
      · -- an empty epoch: the walk goes on below it
        rename_i hempty
        have empty : db.epochBlocks (E + 1) = [] := List.isEmpty_iff.mp hempty
        rw [mem_unwindEpochs h key]
        refine ⟨fun hu => hu.extend fun stop => stop.1 empty, fun hu => hu.restrict ?_⟩
        by_contra above
        have he : (ofLex key).1 = E + 1 := by have := hu.epochLe; omega
        obtain ⟨b, hb⟩ := hu.stored
        have met : (key, b.decode) ∈ db.epochBlocks (E + 1) :=
          mem_epochBlocks.mpr ⟨b, hb, he, hu.idBelow, rfl⟩
        rw [empty] at met
        cases met
      · rename_i hne
        have nonempty : db.epochBlocks (E + 1) ≠ [] := fun h => hne (by simp [h])
        cases hs : db.scanEpoch target (db.epochBlocks (E + 1)) with
        | none => simp [hs] at h
        | some r =>
            obtain ⟨keys0, batches0⟩ := r
            have dropped : keys0 = db.droppedKeys target (E + 1) := scanEpoch_keys hs
            simp only [hs, Option.bind_eq_bind, Option.bind_some] at h
            split at h
            · -- nothing dropped: the epoch ends the walk
              rename_i hnil
              cases h
              have stop : db.StopsAt target (E + 1) :=
                (stopsAt_iff_droppedKeys_nil nonempty).mpr (dropped ▸ List.isEmpty_iff.mp hnil)
              simp only [List.not_mem_nil, false_iff]
              intro hu
              rcases Nat.lt_or_ge (ofLex key).1 (E + 1) with below | top
              · exact hu.noStop (E + 1) below (Nat.le_refl _) stop
              · have inTop := (unwound_top_iff (by have := hu.epochLe; omega) (by omega)).mp hu
                rw [← dropped, List.isEmpty_iff.mp hnil] at inTop
                cases inTop
            · rename_i hnil
              have noStop : ¬ db.StopsAt target (E + 1) := fun stop =>
                hnil (by rw [dropped, (stopsAt_iff_droppedKeys_nil nonempty).mp stop]; rfl)
              cases hw : db.unwindEpochs target E with
              | none => simp [hw] at h
              | some r' =>
                  obtain ⟨keys', batches'⟩ := r'
                  simp only [hw, Option.bind_some, Option.pure_def, Option.some.injEq,
                    Prod.mk.injEq] at h
                  obtain ⟨rfl, -⟩ := h
                  rw [List.mem_append, mem_unwindEpochs hw key, dropped]
                  constructor
                  · rintro (top | below)
                    · have he := (mem_droppedKeys.mp top).2.1
                      exact (unwound_top_iff he (by omega)).mpr top
                    · exact below.extend noStop
                  · intro hu
                    rcases Nat.lt_or_ge (ofLex key).1 (E + 1) with below | top
                    · exact Or.inr (hu.restrict (by omega))
                    · exact Or.inl ((unwound_top_iff (by have := hu.epochLe; omega) (by omega)).mp hu)

theorem unwindEpochs_isSome (h : target < u64Max) : ∀ maxEpoch, (db.unwindEpochs target maxEpoch).isSome
  | 0 => rfl
  | E + 1 => by
      have below := unwindEpochs_isSome h E
      have scan : (db.scanEpoch target (db.epochBlocks (E + 1))).isSome := scanEpoch_isSome h _
      obtain ⟨⟨keys0, batches0⟩, hs⟩ := Option.isSome_iff_exists.mp scan
      obtain ⟨⟨keys', batches'⟩, hw⟩ := Option.isSome_iff_exists.mp below
      simp only [unwindEpochs]
      split
      · exact below
      · simp only [hs, hw, Option.bind_eq_bind, Option.bind_some]
        split <;> rfl

end Walk

section Unwind

open ConsensusDB

variable {db db' : ConsensusDB} {target : Nat} {batches : List BatchKey} {cancelled : List Nat}

theorem unwindToBlock_eq_some (h : db.unwindToBlock target = some (db', batches, cancelled)) :
    ∃ keys, db.unwindEpochs target db.getMaxEpoch = some (keys, batches) ∧
      db'.block = db.block.deleteAll keys ∧ db'.qc = db.qc.deleteAll keys ∧
      db'.blockNumber = db.blockNumber.deleteAll keys ∧
      db'.ledgerInfo =
        db.ledgerInfo.deleteAll ((db.ledgerInfo.range (min (target + 1) u64Max) u64Max).map Prod.fst) ∧
      db'.epochByBlockNumber = db.epochByBlockNumber.deleteAll
        ((db.epochByBlockNumber.range (min (target + 1) u64Max) u64Max).map Prod.fst) ∧
      db'.randomness =
        db.randomness.deleteAll ((db.randomness.range (min (target + 1) u64Max) u64Max).map Prod.fst) ∧
      db'.lastVote = none ∧ db'.highest2ChainTimeoutCert = none := by
  simp only [unwindToBlock, Option.bind_eq_bind] at h
  cases hw : db.unwindEpochs target db.getMaxEpoch with
  | none => simp [hw] at h
  | some r =>
      obtain ⟨keys, bs⟩ := r
      simp only [hw, Option.bind_some, Option.pure_def, Option.some.injEq, Prod.mk.injEq] at h
      obtain ⟨rfl, rfl, -⟩ := h
      exact ⟨keys, rfl, rfl, rfl, rfl, rfl, rfl, rfl, rfl, rfl⟩

/-- For a target below `u64::MAX` unwind never panics. -/
theorem unwindToBlock_isSome (h : target < u64Max) : (db.unwindToBlock target).isSome := by
  have walk : (db.unwindEpochs target db.getMaxEpoch).isSome := unwindEpochs_isSome h _
  obtain ⟨⟨keys, bs⟩, hw⟩ := Option.isSome_iff_exists.mp walk
  simp [unwindToBlock, hw]

theorem unwindToBlock_block_entries (h : db.unwindToBlock target = some (db', batches, cancelled))
    (key : EpochKey) :
    (db.Unwound target db.getMaxEpoch key →
      db'.block.get key = none ∧ db'.qc.get key = none ∧ db'.blockNumber.get key = none) ∧
    (¬ db.Unwound target db.getMaxEpoch key →
      db'.block.get key = db.block.get key ∧ db'.qc.get key = db.qc.get key ∧
        db'.blockNumber.get key = db.blockNumber.get key) := by
  obtain ⟨keys, hw, hblock, hqc, hbn, -⟩ := unwindToBlock_eq_some h
  have mem := mem_unwindEpochs hw key
  rw [hblock, hqc, hbn]
  simp only [SortedStore.get_deleteAll]
  exact ⟨fun hu => by simp [mem.mpr hu], fun hu => by simp [mt mem.mp hu]⟩

theorem unwindToBlock_number_entries (h : db.unwindToBlock target = some (db', batches, cancelled))
    (n : Nat) :
    (min (target + 1) u64Max ≤ n ∧ n < u64Max →
      db'.ledgerInfo.get n = none ∧ db'.epochByBlockNumber.get n = none ∧ db'.randomness.get n = none) ∧
    (¬ (min (target + 1) u64Max ≤ n ∧ n < u64Max) →
      db'.ledgerInfo.get n = db.ledgerInfo.get n ∧
        db'.epochByBlockNumber.get n = db.epochByBlockNumber.get n ∧
        db'.randomness.get n = db.randomness.get n) := by
  obtain ⟨keys, -, -, -, -, hli, hebn, hrand, -⟩ := unwindToBlock_eq_some h
  rw [hli, hebn, hrand]
  simp only [SortedStore.get_deleteAll_range]
  exact ⟨fun hin => by simp only [if_pos hin, and_self],
    fun hout => by simp only [if_neg hout, and_self]⟩

theorem unwound_of_above_successor (mono : db.NumbersMonotone) {key : EpochKey} {n : Nat}
    (stored : (db.block.get key).isSome) (hn : db.blockNumber.get key = some n) (above : target + 1 < n)
    (epochPos : 1 ≤ (ofLex key).1) (idBelow : (ofLex key).2 < hashMax) :
    db.Unwound target db.getMaxEpoch key := by
  obtain ⟨b, hb⟩ := Option.isSome_iff_exists.mp stored
  have hmem : (key, b) ∈ db.block.entries := SortedStore.mem_entries_of_get hb
  refine ⟨⟨b, hmem⟩, idBelow, epochPos, db.epoch_le_getMaxEpoch hmem, ?_, ?_⟩
  · simp [Kept, hn, Nat.not_le.mpr above]
  · rintro e lt - ⟨nonempty, allKept⟩
    obtain ⟨x, hx⟩ := List.exists_mem_of_ne_nil _ nonempty
    have kept := allKept x hx
    obtain ⟨-, -, he, -, -⟩ := mem_epochBlocks.mp hx
    -- the later block is kept, so it has a number at most `target + 1`
    cases hx' : db.blockNumber.get x.1 with
    | none => simp [Kept, hx'] at kept
    | some n' =>
        have le : n' ≤ target + 1 := by simpa [Kept, hx'] using kept
        have := mono key x.1 n n' hn hx' (he ▸ lt)
        omega

/-- What a successful unwind guarantees when block numbers do not decrease
across epochs.  Every block in an epoch from 1, under an id below `0xff..ff`
and numbered above `target + 1`, is gone with its certificate and number.
Every block numbered at most `target + 1` keeps its entries.  The entries
keyed by a number above `target` and below `u64::MAX` are gone, those up to
`target` are unchanged.  The last vote and timeout certificate are cleared. -/
theorem unwindToBlock_spec (mono : db.NumbersMonotone)
    (h : db.unwindToBlock target = some (db', batches, cancelled)) :
    (∀ key n, (db.block.get key).isSome → db.blockNumber.get key = some n → target + 1 < n →
      1 ≤ (ofLex key).1 → (ofLex key).2 < hashMax →
        db'.block.get key = none ∧ db'.qc.get key = none ∧ db'.blockNumber.get key = none) ∧
    (∀ key n, db.blockNumber.get key = some n → n ≤ target + 1 →
      db'.block.get key = db.block.get key ∧ db'.qc.get key = db.qc.get key ∧
        db'.blockNumber.get key = some n) ∧
    (∀ n, target < n → n < u64Max →
      db'.ledgerInfo.get n = none ∧ db'.epochByBlockNumber.get n = none ∧ db'.randomness.get n = none) ∧
    (∀ n, n ≤ target →
      db'.ledgerInfo.get n = db.ledgerInfo.get n ∧
        db'.epochByBlockNumber.get n = db.epochByBlockNumber.get n ∧
        db'.randomness.get n = db.randomness.get n) ∧
    db'.lastVote = none ∧ db'.highest2ChainTimeoutCert = none := by
  obtain ⟨-, -, -, -, -, -, -, -, hvote, htc⟩ := unwindToBlock_eq_some h
  refine ⟨?_, ?_, ?_, ?_, hvote, htc⟩
  · intro key n stored hn above epochPos idBelow
    exact (unwindToBlock_block_entries h key).1
      (unwound_of_above_successor mono stored hn above epochPos idBelow)
  · intro key n hn le
    have kept : ¬ db.Unwound target db.getMaxEpoch key := fun hu => by
      have := hu.notKept
      simp [Kept, hn, le] at this
    obtain ⟨hblock, hqc, hbn⟩ := (unwindToBlock_block_entries h key).2 kept
    exact ⟨hblock, hqc, hbn.trans hn⟩
  · intro n above below
    exact (unwindToBlock_number_entries h n).1 ⟨by omega, below⟩
  · intro n le
    exact (unwindToBlock_number_entries h n).2 (by omega)

/-- The layout of test_unwind_to_block: epoch 1 holds the genesis block and
blocks 1 to 5, each with its number in BlockNumberSchema, and randomness for
blocks 1 to 5.  Unwinding to block 3 keeps block 4 (`num <= target + 1`) with
its number, where the doc comment and the test delete it; the randomness of
block 4 is deleted. -/
theorem unwindToBlock_keeps_block_after_target :
    let numbered (n : Nat) : Block := ⟨none, some n⟩
    let db : ConsensusDB :=
      { block := ⟨⟨[(toLex (1, 10), ⟨none, none⟩), (toLex (1, 11), numbered 1),
          (toLex (1, 12), numbered 2), (toLex (1, 13), numbered 3), (toLex (1, 14), numbered 4),
          (toLex (1, 15), numbered 5)]⟩, by decide⟩
        qc := ⟨⟨[]⟩, by decide⟩
        blockNumber := ⟨⟨[(toLex (1, 10), 0), (toLex (1, 11), 1), (toLex (1, 12), 2),
          (toLex (1, 13), 3), (toLex (1, 14), 4), (toLex (1, 15), 5)]⟩, by decide⟩
        ledgerInfo := ⟨⟨[]⟩, by decide⟩
        epochByBlockNumber := ⟨⟨[]⟩, by decide⟩
        randomness := ⟨⟨[(1, [1]), (2, [2]), (3, [3]), (4, [4]), (5, [5])]⟩, by decide⟩
        lastVote := some [1, 2, 3]
        highest2ChainTimeoutCert := some [4, 5, 6] }
    (unwindToBlock db 3).map (fun r => (r.1.block.get (toLex (1, 14)),
        r.1.blockNumber.get (toLex (1, 14)), r.1.randomness.get 4)) =
      some (some (numbered 4), some 4, none) := by
  decide

end Unwind

end GravitySdk.ConsensusDb
