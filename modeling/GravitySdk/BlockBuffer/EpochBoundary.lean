/- The first block of a new epoch in the buffer manager.
   digest: From the record of an epoch change at block n to the first block of
   the new epoch, the entry of block n stays in the buffer under its id, along
   every run whose set_state reports as committed a block the buffer holds
   committed outside the suffix and as finalized one no higher; so
   set_ordered_blocks gives the first block of the new epoch block n's id as
   parent, and get_ordered_blocks hands the block out first with that parent. -/

import GravitySdk.BlockBuffer.OrderedFeed
import GravitySdk.BlockBuffer.EpochChange
import GravitySdk.BlockBuffer.Lifecycle

/-!
`actual_parent_id` links the first block of epoch `e'`, at `n + 1`, to the
entry at `(e' - 1, n)`.  That entry can leave the buffer only through
`release_inflight_blocks`, which keeps every key up to the recorded block, and
through `remove_committed_blocks`, which keeps every key from the finalized
number on.  So the link holds while the finalized number stays at most `n`, and
the contract on `set_state` gives that in each phase of the change
(`Bridging`): while the change is pending the cached block `n` makes every
block above it a suffix block, and from the release on no key lies above `n`.
-/

set_option autoImplicit false
set_option relaxedAutoImplicit false

namespace GravitySdk.BlockBuffer

open GravitySdk.Lib GravitySdk.Lib.Transition

variable {VS : Type}

/-- What the calls from the record of the change to epoch `e'` up to the first
block of `e'` keep to: no re-initialisation and no further epoch change, a
`consume_epoch_change` only once the change is ready, no block of `e'`
ordered, and a `set_state` that reports as committed a block the buffer holds
committed, outside the suffix, and as finalized one no higher, as
`RethCli::start_commit` does with the last block `get_committed_blocks` handed
out and the persisted number. -/
def Call.LeadsToEpoch (e' : Nat) (s : BlockStateMachine VS) : Call → Prop
  | .init _ _ _ => False
  | .initEpoch _ => False
  | .setOrderedBlocks _ block _ => block.epoch ≠ e'
  | .setComputeRes _ _ _ _ events => events.find? GravityEvent.isNewEpoch = none
  | .setState latestCommitBlockNumber latestFinalizedBlockNumber =>
      latestFinalizedBlockNumber ≤ latestCommitBlockNumber ∧
        s.isSuffixBlock latestCommitBlockNumber = false ∧
        ∃ epoch hash r id notifier,
          s.blocks.get ⟨epoch, latestCommitBlockNumber⟩ = some (.committed hash r id notifier)
  | .consumeEpochChange => s.epochChangeReady = true
  | _ => True

/-- The contract checked on a concrete state. -/
def Call.leadsToEpochCheck (e' : Nat) (s : BlockStateMachine VS) : Call → Bool
  | .init _ _ _ => false
  | .initEpoch _ => false
  | .setOrderedBlocks _ block _ => block.epoch != e'
  | .setComputeRes _ _ _ _ events => (events.find? GravityEvent.isNewEpoch).isNone
  | .setState latestCommitBlockNumber latestFinalizedBlockNumber =>
      decide (latestFinalizedBlockNumber ≤ latestCommitBlockNumber) &&
        !s.isSuffixBlock latestCommitBlockNumber &&
        s.blocks.entries.any fun entry =>
          entry.1.blockNumber == latestCommitBlockNumber &&
            match s.blocks.get entry.1 with
            | some (.committed _ _ _ _) => true
            | _ => false
  | .consumeEpochChange => s.epochChangeReady
  | _ => true

namespace Call

variable {e' : Nat} {s : BlockStateMachine VS} {c : Call}

theorem LeadsToEpoch.of_check (h : c.leadsToEpochCheck e' s = true) : c.LeadsToEpoch e' s := by
  cases c with
  | init => simp [leadsToEpochCheck] at h
  | initEpoch => simp [leadsToEpochCheck] at h
  | setOrderedBlocks parentId block round => simpa [leadsToEpochCheck, LeadsToEpoch] using h
  | setComputeRes blockId blockHash blockNum epoch events =>
      simpa [leadsToEpochCheck, LeadsToEpoch] using h
  | setState latestCommitBlockNumber latestFinalizedBlockNumber =>
      simp only [leadsToEpochCheck, Bool.and_eq_true, decide_eq_true_eq, Bool.not_eq_true',
        List.any_eq_true, beq_iff_eq] at h
      obtain ⟨⟨le, notSuffix⟩, ⟨k, v⟩, -, number, committed⟩ := h
      split at committed
      · next hash r id notifier stored =>
          refine ⟨le, notSuffix, k.epoch, hash, r, id, notifier, ?_⟩
          rw [← number]
          exact stored
      · cases committed
  | consumeEpochChange => exact h
  | _ => trivial

theorem LeadsToEpoch.isRunning (h : c.LeadsToEpoch e' s) : c.IsRunning := by
  cases c with
  | init => exact h.elim
  | initEpoch => exact h.elim
  | _ => trivial

theorem LeadsToEpoch.keeps (h : c.LeadsToEpoch e' s) (notConsume : c ≠ .consumeEpochChange) :
    c.KeepsEpochChange := by
  cases c with
  | init => exact h.elim
  | initEpoch => exact h.elim
  | setComputeRes => exact h
  | consumeEpochChange => exact (notConsume rfl).elim
  | _ => trivial

end Call

theorem Advances.settled {a b : BlockState VS} (h : Advances a b) (settled : a.isOrdered = false) :
    b.isOrdered = false ∧ b.getBlockId = a.getBlockId := by
  cases h with
  | stay => exact ⟨settled, rfl⟩
  | compute => simp [BlockState.isOrdered] at settled
  | commit => exact ⟨rfl, rfl⟩
  | takeNotifier => exact ⟨rfl, rfl⟩

namespace BlockStateMachine

variable {s : BlockStateMachine VS}

theorem getOrderedBlocks_of_ordered {startNum epoch : Nat} {maxSize : Option Nat}
    {block : ExternalBlock} {parentId : BlockId} {round : Nat} (sized : 0 < maxSize.getD usizeMax)
    (stored : s.blocks.get ⟨epoch, startNum⟩ = some (.ordered block parentId round))
    (waiting : s.epochChangeReady = false) (current : s.currentEpoch = epoch) :
    ∃ rest, s.getOrderedBlocks startNum maxSize epoch = some (.ok ((block, parentId) :: rest)) := by
  obtain ⟨got, collected, holds, -, ends⟩ :=
    collectOrdered_spec s.blocks epoch (maxSize.getD usizeMax) startNum [] (maxSize.getD usizeMax)
      sized (by simp)
  cases got with
  | nil =>
      -- the loop stops only at the limit or past the last `Ordered` block
      simp only [List.length_nil, Nat.add_zero] at ends
      rcases ends with empty | stops
      · omega
      · exact (stops block parentId round stored).elim
  | cons first rest =>
      obtain ⟨round', head⟩ := holds 0 (by simp)
      simp only [Nat.add_zero, List.getElem_cons_zero, stored, Option.some.injEq,
        BlockState.ordered.injEq] at head
      obtain ⟨rfl, rfl, -⟩ := head
      refine ⟨rest, ?_⟩
      simp only [getOrderedBlocks, waiting, current, ne_eq, not_true_eq_false, decide_false,
        Bool.or_false, Bool.false_eq_true, if_false, collected, List.nil_append]

end BlockStateMachine

namespace BlockBufferManager

open BlockStateMachine

variable {g : Gaptos VS} {maxBlockSize : Nat} {m m' : BlockBufferManager VS} {reply : Reply VS}

theorem step_present (c : Call) (running : c.IsRunning) (h : step g maxBlockSize m c = some (m', reply))
    {k : BlockKey} {a : BlockState VS} (ha : m.blockStateMachine.blocks.get k = some a)
    (released : c = .releaseInflightBlocks → m.blockStateMachine.hasPendingEpochChange = true →
      k.blockNumber ≤ m.blockStateMachine.latestEpochChangeBlockNumber)
    (removed : c = .removeCommittedBlocks →
      m.blockStateMachine.latestFinalizedBlockNumber ≤ k.blockNumber) :
    ∃ b, m'.blockStateMachine.blocks.get k = some b := by
  have inserted : ∀ (blocks : KeyMap BlockKey (BlockState VS)) k₀ v, blocks.get k = some a →
      ∃ b, (blocks.insert k₀ v).get k = some b := by
    intro blocks k₀ v stored
    rw [KeyMap.get_insert]
    split_ifs
    exacts [⟨v, rfl⟩, ⟨a, stored⟩]
  cases step_effect c h with
  | unchanged => exact ⟨a, ha⟩
  | init => exact running.elim
  | initEpoch => exact running.elim
  | setOrderedBlocks _ ok =>
      rcases setOrderedBlocks_eq_ok ok with same | ⟨-, -, -, rfl⟩
      · exact ⟨a, by rw [withMachine_blockStateMachine, same]; exact ha⟩
      · exact inserted _ _ _ ha
  | getExecutedRes _ found =>
      rcases getExecutedRes_eq_ok found with same | ⟨-, -, -, -, -, -, -, -, rfl⟩
      · exact ⟨a, by rw [withMachine_blockStateMachine, same]; exact ha⟩
      · exact inserted _ _ _ ha
  | setComputeRes _ ok =>
      obtain ⟨-, -, -, -, -, ⟨-, rfl⟩ | ⟨-, -, -, -, -, rfl⟩⟩ := setComputeRes_eq_ok ok
      · exact inserted _ _ _ ha
      · -- the suffix rewrite keeps every key
        obtain ⟨b, hb⟩ := inserted m.blockStateMachine.blocks _ _ ha
        simp only [withMachine_blockStateMachine, handleEpochChangeSuffixBlocks_get]
        exact ⟨_, by rw [hb]; rfl⟩
  | @setCommitBlocks _ blockIds epoch _ =>
      rcases (setCommitBlocksLoop_commitsOnly epoch blockIds [] m.blockStateMachine).entry k with
        same | ⟨_, _, _, _, _, now⟩
      · exact ⟨a, by rw [withMachine_blockStateMachine, setCommitBlocks, same]; exact ha⟩
      · exact ⟨_, now⟩
  | getCommittedBlocks _ found =>
      rcases (getCommittedBlocks_notifiersTaken found).entry k with same | ⟨_, _, _, _, _, now⟩
      · exact ⟨a, by rw [withMachine_blockStateMachine, same]; exact ha⟩
      · exact ⟨_, now⟩
  | setState => exact ⟨a, ha⟩
  | releaseInflightBlocks =>
      unfold releaseInflightBlocks
      split_ifs with pending
      · have below := released rfl pending
        exact ⟨a, by simp [releaseInflight, ha, below]⟩
      · exact ⟨a, ha⟩
  | consumeEpochChange => exact ⟨a, ha⟩
  | removeCommittedBlocks =>
      simp only [withMachine_blockStateMachine, removeCommittedBlocks]
      split_ifs
      · exact ⟨a, ha⟩
      · have above := removed rfl
        exact ⟨a, by simp [ha, above]⟩

theorem step_latestFinalizedBlockNumber (c : Call) (running : c.IsRunning)
    (h : step g maxBlockSize m c = some (m', reply)) :
    m'.blockStateMachine.latestFinalizedBlockNumber = m.blockStateMachine.latestFinalizedBlockNumber ∨
      ∃ latestCommitBlockNumber latestFinalizedBlockNumber,
        c = .setState latestCommitBlockNumber latestFinalizedBlockNumber ∧
        m'.blockStateMachine.latestFinalizedBlockNumber = latestFinalizedBlockNumber := by
  cases step_effect c h with
  | unchanged => exact .inl rfl
  | init => exact running.elim
  | initEpoch => exact .inl rfl
  | setOrderedBlocks _ ok =>
      rcases setOrderedBlocks_eq_ok ok with same | ⟨-, -, -, rfl⟩
      · exact .inl (by rw [withMachine_blockStateMachine, same])
      · exact .inl rfl
  | getExecutedRes _ found =>
      rcases getExecutedRes_eq_ok found with same | ⟨-, -, -, -, -, -, -, -, rfl⟩
      · exact .inl (by rw [withMachine_blockStateMachine, same])
      · exact .inl rfl
  | setComputeRes _ ok =>
      obtain ⟨-, -, -, -, -, ⟨-, rfl⟩ | ⟨-, -, -, -, -, rfl⟩⟩ := setComputeRes_eq_ok ok
      · exact .inl rfl
      · exact .inl rfl
  | @setCommitBlocks _ blockIds epoch _ =>
      have fields := (setCommitBlocksLoop_commitsOnly epoch blockIds [] m.blockStateMachine).fields
      exact .inl (by rw [withMachine_blockStateMachine, setCommitBlocks, fields])
  | getCommittedBlocks _ found =>
      exact .inl (by rw [withMachine_blockStateMachine, (getCommittedBlocks_notifiersTaken found).fields])
  | @setState _ latestCommitBlockNumber latestFinalizedBlockNumber =>
      exact .inr ⟨latestCommitBlockNumber, latestFinalizedBlockNumber, rfl, rfl⟩
  | releaseInflightBlocks =>
      unfold releaseInflightBlocks
      split_ifs
      · exact .inl rfl
      · exact .inl rfl
  | consumeEpochChange => exact .inl rfl
  | removeCommittedBlocks =>
      simp only [withMachine_blockStateMachine, removeCommittedBlocks]
      split_ifs
      · exact .inl rfl
      · exact .inl rfl

/-! ### The phases of an epoch change -/

/-- The change to epoch `epoch + 1`, recorded at block `n` of the current epoch
`epoch`, before the release. -/
structure Pending (epoch n : Nat) (m : BlockBufferManager VS) : Prop where
  currentEpoch_eq : m.blockStateMachine.currentEpoch = epoch
  nextEpoch_eq : m.blockStateMachine.nextEpoch = some (epoch + 1)
  pending_eq : m.blockStateMachine.latestEpochChangeBlockNumber = n
  cached : m.blockStateMachine.epochChangeBlockInfo.map (·.epochBlockInfo.blockNumber) = some n
  ready_eq : m.blockStateMachine.epochChangeReady = false

/-- After the consume of the change to epoch `e'` recorded at block `n`. -/
structure Consumed (e' n : Nat) (m : BlockBufferManager VS) : Prop where
  currentEpoch_eq : m.blockStateMachine.currentEpoch = e'
  nextEpoch_eq : m.blockStateMachine.nextEpoch = none
  pending_eq : m.blockStateMachine.latestEpochChangeBlockNumber = 0
  cache_eq : m.blockStateMachine.epochChangeBlockInfo = none
  ready_eq : m.blockStateMachine.epochChangeReady = false
  bufferState_eq : m.bufferState = .ready
  pruned : KeysBelow n m.blockStateMachine

/-- The phases of the change to epoch `epoch + 1` recorded at block `n`. -/
def Bridging (epoch n : Nat) (m : BlockBufferManager VS) : Prop :=
  Pending epoch n m ∨ Released (epoch + 1) n m ∨ Consumed (epoch + 1) n m

theorem Pending.of_kept {epoch n : Nat} (h : Pending epoch n m)
    (kept : EpochFieldsKept m.blockStateMachine m'.blockStateMachine) : Pending epoch n m' :=
  ⟨kept.currentEpoch_eq.trans h.currentEpoch_eq, kept.nextEpoch_eq.trans h.nextEpoch_eq,
    kept.pending_eq.trans h.pending_eq, by rw [kept.cache_eq]; exact h.cached,
    kept.ready_eq.trans h.ready_eq⟩

theorem Released.consumed {e' n : Nat} (h : Released e' n m)
    (hs : step g maxBlockSize m .consumeEpochChange = some (m', reply)) : Consumed e' n m' := by
  simp only [step, consumeEpochChange, Option.some.injEq, Prod.mk.injEq] at hs
  obtain ⟨rfl, -⟩ := hs
  exact ⟨h.currentEpoch_eq, h.nextEpoch_eq, rfl, h.cache_eq, rfl, rfl, h.pruned⟩

theorem Consumed.of_step {e' n : Nat} (h : Consumed e' n m) (c : Call)
    (allowed : c.LeadsToEpoch e' m.blockStateMachine) (hs : step g maxBlockSize m c = some (m', reply)) :
    Consumed e' n m' := by
  by_cases release : c = .releaseInflightBlocks
  · subst release
    have quiet : m.blockStateMachine.hasPendingEpochChange = false := by
      simp [hasPendingEpochChange, h.pending_eq, h.nextEpoch_eq, h.cache_eq]
    simp only [step, releaseInflightBlocks, quiet, Bool.false_eq_true, if_false, Option.some.injEq,
      Prod.mk.injEq] at hs
    rw [← hs.1]
    exact h
  · have notConsume : c ≠ .consumeEpochChange := by
      rintro rfl
      have ready : m.blockStateMachine.epochChangeReady = true := allowed
      rw [h.ready_eq] at ready
      cases ready
    have keeps := allowed.keeps notConsume
    obtain ⟨kept, state⟩ := step_epochFieldsKept c keeps release hs
    -- blocks of the current epoch are not ordered, and the cache is gone
    have noOrder : ∀ parentId block round, c = .setOrderedBlocks parentId block round →
        block.epoch ≠ m.blockStateMachine.currentEpoch := by
      rintro parentId block round rfl
      rw [h.currentEpoch_eq]
      exact allowed
    have keys := step_entriesFrom_of_uncached c keeps h.cache_eq (.inr noOrder) hs
    exact ⟨kept.currentEpoch_eq.trans h.currentEpoch_eq, kept.nextEpoch_eq.trans h.nextEpoch_eq,
      kept.pending_eq.trans h.pending_eq, kept.cache_eq.trans h.cache_eq,
      kept.ready_eq.trans h.ready_eq, state.trans h.bufferState_eq, h.pruned.of_entriesFrom keys⟩

theorem Bridging.of_step {epoch n : Nat} (h : Bridging epoch n m) (c : Call)
    (allowed : c.LeadsToEpoch (epoch + 1) m.blockStateMachine)
    (hs : step g maxBlockSize m c = some (m', reply)) : Bridging epoch n m' := by
  rcases h with pending | released | consumed
  · by_cases release : c = .releaseInflightBlocks
    · subst release
      simp only [step, Option.some.injEq, Prod.mk.injEq] at hs
      rw [← hs.1]
      exact .inr (.inl (Announced.release (.inl ⟨pending.pending_eq, pending.nextEpoch_eq⟩)))
    · -- a consume waits for the release
      have notConsume : c ≠ .consumeEpochChange := by
        rintro rfl
        have ready : m.blockStateMachine.epochChangeReady = true := allowed
        rw [pending.ready_eq] at ready
        cases ready
      obtain ⟨kept, -⟩ := step_epochFieldsKept c (allowed.keeps notConsume) release hs
      exact .inl (pending.of_kept kept)
  · by_cases consume : c = .consumeEpochChange
    · subst consume
      exact .inr (.inr (released.consumed hs))
    · exact .inr (.inl (released.of_step c (allowed.keeps consume) hs))
  · exact .inr (.inr (consumed.of_step c allowed hs))

theorem Bridging.release_keeps {epoch n : Nat} (h : Bridging epoch n m)
    (pending : m.blockStateMachine.hasPendingEpochChange = true) :
    n ≤ m.blockStateMachine.latestEpochChangeBlockNumber := by
  rcases h with p | r | c
  · rw [p.pending_eq]
  · rw [r.pending_eq]
  · simp [hasPendingEpochChange, c.pending_eq, c.nextEpoch_eq, c.cache_eq] at pending

theorem Bridging.le_of_not_suffix {epoch n k e : Nat} {st : BlockState VS} (h : Bridging epoch n m)
    (notSuffix : m.blockStateMachine.isSuffixBlock k = false)
    (stored : m.blockStateMachine.blocks.get ⟨e, k⟩ = some st) : k ≤ n := by
  rcases h with p | r | c
  · obtain ⟨cache, hc, number⟩ := Option.map_eq_some_iff.mp p.cached
    simp only [isSuffixBlock, hc, decide_eq_false_iff_not, not_lt] at notSuffix
    rw [← number]
    exact notSuffix
  · exact r.pruned _ _ stored
  · exact c.pruned _ _ stored

/-- Block `n` of epoch `epoch` is held past `Ordered` under its id and nothing
above it is finalized, in some phase of the change. -/
structure Bridged (epoch n : Nat) (blockId : BlockId) (m : BlockBufferManager VS) : Prop where
  held : ∃ st, m.blockStateMachine.blocks.get ⟨epoch, n⟩ = some st ∧ st.isOrdered = false ∧
    st.getBlockId = blockId
  finalized : m.blockStateMachine.latestFinalizedBlockNumber ≤ n
  phase : Bridging epoch n m

theorem Bridged.of_step {epoch n : Nat} {blockId : BlockId} (h : Bridged epoch n blockId m) (c : Call)
    (allowed : c.LeadsToEpoch (epoch + 1) m.blockStateMachine)
    (hs : step g maxBlockSize m c = some (m', reply)) : Bridged epoch n blockId m' := by
  have running := allowed.isRunning
  refine ⟨?_, ?_, h.phase.of_step c allowed hs⟩
  · obtain ⟨st, stored, settled, id⟩ := h.held
    obtain ⟨st', stored'⟩ := step_present c running hs stored
      (fun _ pending => h.phase.release_keeps pending) (fun _ => h.finalized)
    obtain ⟨settled', id'⟩ := (step_advances c running hs _ _ _ stored stored').settled settled
    exact ⟨st', stored', settled', id'.trans id⟩
  · rcases step_latestFinalizedBlockNumber c running hs with same | ⟨commit, finalized, rfl, now⟩
    · rw [same]
      exact h.finalized
    · -- `set_state` finalizes no more than a committed block outside the suffix
      obtain ⟨le, notSuffix, e, hash, r, id, notifier, stored⟩ := allowed
      rw [now]
      exact le.trans (h.phase.le_of_not_suffix notSuffix stored)

theorem bridged_of_record {m₀ : BlockBufferManager VS} {blockId : BlockId} {blockHash : HashValue}
    {n epoch : Nat} {events : List GravityEvent} {bytes : List UInt8}
    (announces : events.find? GravityEvent.isNewEpoch = some (.newEpoch (epoch + 1) bytes))
    (epochNow : m.blockStateMachine.currentEpoch = epoch)
    (quiet : m.blockStateMachine.epochChangeReady = false)
    (finalizedBelow : m.blockStateMachine.latestFinalizedBlockNumber ≤ n)
    (recorded : step g maxBlockSize m (.setComputeRes blockId blockHash n epoch events) = some (m₀, .unit)) :
    Bridged epoch n blockId m₀ := by
  obtain ⟨s₀, ok, rfl⟩ := step_setComputeRes_unit recorded
  obtain ⟨block, parentId, round, stored, -, ⟨notFound, -⟩ | ⟨newEpoch, bytes', vs, -, -, shape⟩⟩ :=
    setComputeRes_eq_ok ok
  · rw [announces] at notFound
    cases notFound
  obtain ⟨next, pending⟩ := setComputeRes_records announces ok
  obtain ⟨cached, sameEpoch⟩ := setComputeRes_caches announces stored ok
  refine ⟨⟨.computed blockId (computedResult blockHash block events (some ⟨newEpoch, vs⟩)), ?_, rfl, rfl⟩,
    ?_, .inl ⟨?_, next, pending, ?_, ?_⟩⟩
  · -- the suffix rewrite leaves the recorded block itself alone
    simp [shape]
  · rw [withMachine_blockStateMachine, shape]
    exact finalizedBelow
  · rw [withMachine_blockStateMachine, sameEpoch, epochNow]
  · obtain ⟨cache, hc, info⟩ := Option.map_eq_some_iff.mp cached
    simp [hc, info]
  · rw [withMachine_blockStateMachine, shape]
    exact quiet

theorem bridged_of_trace {m₀ m₁ : BlockBufferManager VS} {epoch n : Nat} {blockId : BlockId}
    {evs : List (Call × Reply VS)} (start : Bridged epoch n blockId m₀)
    (run : Trace (step g maxBlockSize) (fun m c => c.LeadsToEpoch (epoch + 1) m.blockStateMachine)
      m₀ evs m₁) : Bridged epoch n blockId m₁ :=
  Trace.invariant (fun m _ => Bridged epoch n blockId m) start
    (fun _ _ c _ _ h allowed hs => h.of_step c allowed hs) run

/-- The first block of a new epoch is linked to the epoch-change block.  After
`set_compute_res` records `NewEpoch(epoch + 1)` for block `n` of the current
epoch, outside another change and with nothing above `n` finalized, a run that
keeps `Call.LeadsToEpoch` and ends with the manager accepting blocks of the new
epoch, with nothing at `(epoch + 1, n)`, stores block `n + 1` of the new epoch
`Ordered` with block `n`'s id as parent; and `get_ordered_blocks` from it then
hands it out first, with that parent. -/
theorem first_block_of_epoch_links_epoch_change_block {m₀ m₁ : BlockBufferManager VS}
    {blockId : BlockId} {blockHash : HashValue} {n epoch : Nat} {events : List GravityEvent}
    {bytes : List UInt8} {evs : List (Call × Reply VS)}
    (announces : events.find? GravityEvent.isNewEpoch = some (.newEpoch (epoch + 1) bytes))
    (epochNow : m.blockStateMachine.currentEpoch = epoch)
    (quiet : m.blockStateMachine.epochChangeReady = false)
    (finalizedBelow : m.blockStateMachine.latestFinalizedBlockNumber ≤ n)
    (recorded : step g maxBlockSize m (.setComputeRes blockId blockHash n epoch events) = some (m₀, .unit))
    (run : Trace (step g maxBlockSize) (fun m c => c.LeadsToEpoch (epoch + 1) m.blockStateMachine)
      m₀ evs m₁)
    (accepting : m₁.blockStateMachine.currentEpoch = epoch + 1 ∧
      m₁.blockStateMachine.epochChangeReady = false)
    (firstOfEpoch : m₁.blockStateMachine.blocks.get ⟨epoch + 1, n⟩ = none)
    (parentId : BlockId) (block : ExternalBlock) (round : Nat)
    (number : block.blockNumber = n + 1) (inEpoch : block.epoch = epoch + 1) :
    ∃ m₂, step g maxBlockSize m₁ (.setOrderedBlocks parentId block round) = some (m₂, .unit) ∧
      m₂.blockStateMachine.blocks.get ⟨epoch + 1, n + 1⟩ = some (.ordered block blockId round) ∧
      ∀ maxSize : Option Nat, (∀ limit, maxSize = some limit → 1 ≤ limit) →
        ∃ rest, step g maxBlockSize m₂ (.getOrderedBlocks (n + 1) maxSize (epoch + 1)) =
          some (m₂, .orderedBlocks ((block, blockId) :: rest)) := by
  have bridged := bridged_of_trace (bridged_of_record announces epochNow quiet finalizedBelow recorded) run
  -- a manager that accepts blocks of the new epoch has consumed the change
  obtain ⟨pruned, ready⟩ : KeysBelow n m₁.blockStateMachine ∧ m₁.bufferState = .ready := by
    rcases bridged.phase with p | r | c
    · rw [p.currentEpoch_eq] at accepting
      omega
    · rw [r.ready_eq] at accepting
      cases accepting.2
    · exact ⟨c.pruned, c.bufferState_eq⟩
  have free : m₁.blockStateMachine.blocks.get ⟨epoch + 1, n + 1⟩ = none := by
    cases stored : m₁.blockStateMachine.blocks.get ⟨epoch + 1, n + 1⟩ with
    | none => rfl
    | some st =>
        have := pruned _ _ stored
        simp at this
  -- `actual_parent_id` misses `(epoch + 1, n)` and finds block `n` one epoch down
  have parent : m₁.blockStateMachine.actualParentId block parentId = blockId := by
    obtain ⟨st, stored, -, id⟩ := bridged.held
    simp [actualParentId, number, inEpoch, firstOfEpoch, stored, id]
  let s₂ := { m₁.blockStateMachine with
    blocks := m₁.blockStateMachine.blocks.insert ⟨epoch + 1, n + 1⟩ (.ordered block blockId round) }
  have inserted : step g maxBlockSize m₁ (.setOrderedBlocks parentId block round) =
      some (m₁.withMachine s₂, .unit) := by
    simp [step, isReady, ready, BlockStateMachine.setOrderedBlocks, accepting.2, inEpoch, accepting.1,
      number, free, parent, commitOrReply, s₂]
  have stored₂ : s₂.blocks.get ⟨epoch + 1, n + 1⟩ = some (.ordered block blockId round) :=
    KeyMap.get_insert_self _ _ _
  refine ⟨_, inserted, stored₂, fun maxSize sized => ?_⟩
  have limited : 0 < maxSize.getD usizeMax := by
    cases maxSize with
    | none => decide
    | some limit => exact sized limit rfl
  obtain ⟨rest, found⟩ := getOrderedBlocks_of_ordered limited stored₂ accepting.2 accepting.1
  refine ⟨rest, ?_⟩
  simp [step, isReady, withMachine, ready, found]

/-- The ordered-block feed.  In every state that a run from
`BlockBufferManager::new` reaches, a `get_ordered_blocks` with no limit or a
limit of at least one that replies with blocks hands out an `OrderedRun`, and
when the run's calls order the blocks of each epoch by non-decreasing number,
every block of the batch after the first comes with the id of the block before
it as its parent.  Across an epoch change recorded at block `n`, along calls
that keep `Call.LeadsToEpoch`, the first block of the new epoch, `n + 1`, is
stored and handed out with block `n`'s id as its parent. -/
theorem getOrderedBlocks_returns_runs_linked_across_epochs {evs : List (Call × Reply VS)}
    (run : Trace (step g maxBlockSize) (fun _ _ => True) new evs m)
    {startNum : Nat} {maxSize : Option Nat} {expectedEpoch : Nat} {v : List (ExternalBlock × BlockId)}
    (sized : ∀ limit, maxSize = some limit → 1 ≤ limit)
    (returned : step g maxBlockSize m (.getOrderedBlocks startNum maxSize expectedEpoch) =
      some (m', .orderedBlocks v))
    {mᵣ m₀ m₁ : BlockBufferManager VS} {blockId : BlockId} {blockHash : HashValue} {n epoch : Nat}
    {events : List GravityEvent} {bytes : List UInt8} {evs' : List (Call × Reply VS)}
    (announces : events.find? GravityEvent.isNewEpoch = some (.newEpoch (epoch + 1) bytes))
    (epochNow : mᵣ.blockStateMachine.currentEpoch = epoch)
    (quiet : mᵣ.blockStateMachine.epochChangeReady = false)
    (finalizedBelow : mᵣ.blockStateMachine.latestFinalizedBlockNumber ≤ n)
    (recorded : step g maxBlockSize mᵣ (.setComputeRes blockId blockHash n epoch events) =
      some (m₀, .unit))
    (bridge : Trace (step g maxBlockSize) (fun m c => c.LeadsToEpoch (epoch + 1) m.blockStateMachine)
      m₀ evs' m₁)
    (accepting : m₁.blockStateMachine.currentEpoch = epoch + 1 ∧
      m₁.blockStateMachine.epochChangeReady = false)
    (firstOfEpoch : m₁.blockStateMachine.blocks.get ⟨epoch + 1, n⟩ = none)
    (parentId : BlockId) (block : ExternalBlock) (round : Nat)
    (number : block.blockNumber = n + 1) (inEpoch : block.epoch = epoch + 1) :
    (OrderedRun m.blockStateMachine startNum maxSize expectedEpoch v ∧
      ((evs.map Prod.fst).Pairwise Call.OrdersForward →
        ∀ i (h : i + 1 < v.length), v[i + 1].2 = v[i].1.blockId)) ∧
    ∃ m₂, step g maxBlockSize m₁ (.setOrderedBlocks parentId block round) = some (m₂, .unit) ∧
      m₂.blockStateMachine.blocks.get ⟨epoch + 1, n + 1⟩ = some (.ordered block blockId round) ∧
      ∀ maxSize : Option Nat, (∀ limit, maxSize = some limit → 1 ≤ limit) →
        ∃ rest, step g maxBlockSize m₂ (.getOrderedBlocks (n + 1) maxSize (epoch + 1)) =
          some (m₂, .orderedBlocks ((block, blockId) :: rest)) :=
  ⟨getOrderedBlocks_returns_linked_run run sized returned,
    first_block_of_epoch_links_epoch_change_block announces epochNow quiet finalizedBelow recorded
      bridge accepting firstOfEpoch parentId block round number inEpoch⟩

/-- The change to epoch 1 at block 1: block 1 is committed and handed out,
`set_state` reports it committed and finalized, and `remove_committed_blocks`
keeps it; block 2 of epoch 1, ordered with the parent 99, is stored and handed
out with block 1's id, 11. -/
theorem getOrderedBlocks_returns_runs_linked_across_epoch_one :
    let g : Gaptos Unit := ⟨fun _ => .ok (), 0⟩
    let before : List Call := [.init 0 KeyMap.empty 0, .setOrderedBlocks 0 ⟨11, 1, 100, 0, 0⟩ 1]
    let record : Call := .setComputeRes 11 111 1 0 [.newEpoch 1 []]
    let bridge : List Call :=
      [.setCommitBlocks [⟨11, 1, some 111⟩] 0, .getCommittedBlocks 1 none 0, .releaseInflightBlocks,
        .consumeEpochChange, .setState 1 1, .removeCommittedBlocks]
    let first : Call := .setOrderedBlocks 99 ⟨12, 2, 200, 1, 0⟩ 2
    ∃ m₁ m₂, ((run (step g 1) new before).bind fun p => (step g 1 p.1 record).bind fun q =>
        (runChecked (step g 1) (fun m c => c.leadsToEpochCheck 1 m.blockStateMachine) q.1 bridge).map
          Prod.fst) = some m₁ ∧
      step g 1 m₁ first = some (m₂, .unit) ∧
      OrderedRun m₂.blockStateMachine 2 (some 5) 1 [(⟨12, 2, 200, 1, 0⟩, 11)] ∧
      m₂.blockStateMachine.blocks.get ⟨1, 2⟩ = some (.ordered ⟨12, 2, 200, 1, 0⟩ 11 2) := by
  intro g before record bridge first
  have shape : ((run (step g 1) new before).bind fun p => (step g 1 p.1 record).bind fun q =>
      (runChecked (step g 1) (fun m c => c.leadsToEpochCheck 1 m.blockStateMachine) q.1 bridge).bind
        fun r => (step g 1 r.1 first).bind fun u =>
          (step g 1 u.1 (.getOrderedBlocks 2 (some 5) 1)).map fun w =>
            (decide (p.1.blockStateMachine.currentEpoch = 0 ∧ p.1.blockStateMachine.epochChangeReady = false ∧
                p.1.blockStateMachine.latestFinalizedBlockNumber = 0), q.2,
              decide (r.1.blockStateMachine.currentEpoch = 1 ∧ r.1.blockStateMachine.epochChangeReady = false ∧
                r.1.blockStateMachine.blocks.get ⟨1, 1⟩ = none), u.2, w.2)) =
      some (true, .unit, true, .unit, .orderedBlocks [(⟨12, 2, 200, 1, 0⟩, 11)]) := by
    decide +kernel
  obtain ⟨⟨mᵣ, rs⟩, ranBefore, shape⟩ := Option.bind_eq_some_iff.mp shape
  obtain ⟨⟨m₀, recordReply⟩, recorded, shape⟩ := Option.bind_eq_some_iff.mp shape
  obtain ⟨⟨m₁, bridgeReplies⟩, ranBridge, shape⟩ := Option.bind_eq_some_iff.mp shape
  obtain ⟨⟨m₂, firstReply⟩, ordered, shape⟩ := Option.bind_eq_some_iff.mp shape
  obtain ⟨⟨m₃, queryReply⟩, queried, same⟩ := Option.map_eq_some_iff.mp shape
  simp only [Prod.mk.injEq, decide_eq_true_eq] at same
  obtain ⟨⟨epochNow, quiet, finalizedBelow⟩, rfl, ⟨epochAfter, readyAfter, firstOfEpoch⟩, rfl, rfl⟩ := same
  have bridged := Trace.of_runChecked (fun _ _ _ ok => Call.LeadsToEpoch.of_check ok) ranBridge
  have feed : Trace (step g 1) (fun _ _ => True) new
      ((before.zip rs ++ [(record, .unit)]) ++ bridge.zip bridgeReplies ++ [(first, .unit)]) m₂ :=
    .snoc (Trace.append (.snoc (Trace.of_run ranBefore) trivial recorded)
      (bridged.mono fun _ _ _ => trivial)) trivial ordered
  obtain ⟨rfl, -⟩ := step_getOrderedBlocks queried
  obtain ⟨⟨handedOut, -⟩, m₄, ordered', stored, -⟩ := getOrderedBlocks_returns_runs_linked_across_epochs feed
    (fun limit five => by cases five; decide) queried (by rfl) epochNow quiet (by rw [finalizedBelow]; decide)
    recorded bridged ⟨epochAfter, readyAfter⟩ firstOfEpoch 99 ⟨12, 2, 200, 1, 0⟩ 2 rfl rfl
  rw [ordered] at ordered'
  obtain ⟨rfl, -⟩ := Prod.mk.inj (Option.some.inj ordered')
  refine ⟨m₁, _, ?_, ordered, handedOut, stored⟩
  simp [ranBefore, recorded, ranBridge]

end BlockBufferManager

end GravitySdk.BlockBuffer
