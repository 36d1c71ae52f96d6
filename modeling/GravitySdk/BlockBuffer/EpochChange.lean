/- The epoch-change handshake of the buffer manager.
   digest: Once set_compute_res records NewEpoch(e') at block n, a release and
   a consume move the manager to epoch e' with nothing above n left, whatever
   runs in between, as long as nothing records another change, re-initialises
   or consumes early; the epoch grows along every run in which each announced
   epoch is at least the current one. -/

import GravitySdk.BlockBuffer.Spec

/-!
The change is carried by four fields of the state machine (`next_epoch`,
`latest_epoch_change_block_number`, `epoch_change_block_info`,
`epoch_change_ready`) and by the buffer state.  Every call but `init`,
`init_epoch`, `release_inflight_blocks`, `consume_epoch_change` and a
`set_compute_res` with a `NewEpoch` event leaves the four fields alone
(`step_epochFieldsKept`), so the handshake has two phases: `Announced`, before
the release, and `Released`, the window up to the consume.
-/

set_option autoImplicit false
set_option relaxedAutoImplicit false

namespace GravitySdk.BlockBuffer

open GravitySdk.Lib GravitySdk.Lib.Transition

variable {VS : Type}

/-- The calls that leave a recorded epoch change pending: no re-initialisation,
no early `consume_epoch_change`, and no further `NewEpoch` event. -/
def Call.KeepsEpochChange : Call → Prop
  | .init _ _ _ => False
  | .initEpoch _ => False
  | .consumeEpochChange => False
  | .setComputeRes _ _ _ _ events => events.find? GravityEvent.isNewEpoch = none
  | _ => True

namespace BlockStateMachine

variable {g : Gaptos VS} {s s' : BlockStateMachine VS}

/-- No key of `s` is above block `n`. -/
def KeysBelow (n : Nat) (s : BlockStateMachine VS) : Prop :=
  ∀ k st, s.blocks.get k = some st → k.blockNumber ≤ n

theorem KeysBelow.of_entriesFrom {n : Nat} (h : KeysBelow n s)
    (keys : EntriesFrom (fun _ => True) s s') : KeysBelow n s' := by
  intro k st' stored
  obtain ⟨st, was, -⟩ := keys k st' stored trivial
  exact h k st was

theorem keysBelow_releaseInflight : KeysBelow s.latestEpochChangeBlockNumber s.releaseInflight := by
  intro k st stored
  simp only [releaseInflight, KeyMap.get_retain, decide_eq_true_eq] at stored
  split_ifs at stored with kept
  exact kept

/-- The fields that carry an epoch change are the same in `s` and `s'`. -/
structure EpochFieldsKept (s s' : BlockStateMachine VS) : Prop where
  currentEpoch_eq : s'.currentEpoch = s.currentEpoch
  nextEpoch_eq : s'.nextEpoch = s.nextEpoch
  pending_eq : s'.latestEpochChangeBlockNumber = s.latestEpochChangeBlockNumber
  cache_eq : s'.epochChangeBlockInfo = s.epochChangeBlockInfo
  ready_eq : s'.epochChangeReady = s.epochChangeReady

theorem EpochFieldsKept.of_blocks (fields : s' = { s with blocks := s'.blocks }) :
    EpochFieldsKept s s' := by
  rw [fields]
  exact ⟨rfl, rfl, rfl, rfl, rfl⟩

theorem setComputeRes_records {blockId : BlockId} {blockHash : HashValue} {blockNum epoch : Nat}
    {events : List GravityEvent} {e' : Nat} {bytes : List UInt8}
    (announces : events.find? GravityEvent.isNewEpoch = some (.newEpoch e' bytes))
    (h : s.setComputeRes g blockId blockHash blockNum epoch events = .ok s') :
    s'.nextEpoch = some e' ∧ s'.latestEpochChangeBlockNumber = blockNum := by
  obtain ⟨-, -, -, -, -, ⟨notFound, -⟩ | ⟨newEpoch, bytes', vs, found, -, rfl⟩⟩ :=
    setComputeRes_eq_ok h
  · rw [announces] at notFound
    cases notFound
  · rw [announces] at found
    simp only [Option.some.injEq, GravityEvent.newEpoch.injEq] at found
    obtain ⟨rfl, -⟩ := found
    exact ⟨rfl, rfl⟩

theorem setComputeRes_caches {blockId : BlockId} {blockHash : HashValue} {blockNum epoch : Nat}
    {events : List GravityEvent} {e' : Nat} {bytes : List UInt8} {block : ExternalBlock}
    {parentId : BlockId} {round : Nat}
    (announces : events.find? GravityEvent.isNewEpoch = some (.newEpoch e' bytes))
    (ordered : s.blocks.get ⟨epoch, blockNum⟩ = some (.ordered block parentId round))
    (h : s.setComputeRes g blockId blockHash blockNum epoch events = .ok s') :
    s'.epochChangeBlockInfo.map EpochChangeCache.epochBlockInfo =
        some ⟨blockId, blockNum, round, block.usecs, blockHash⟩ ∧
      s'.currentEpoch = s.currentEpoch := by
  obtain ⟨block', parentId', round', stored, -, ⟨notFound, -⟩ | ⟨_, _, _, _, _, rfl⟩⟩ :=
    setComputeRes_eq_ok h
  · rw [announces] at notFound
    cases notFound
  · rw [ordered, Option.some.injEq, BlockState.ordered.injEq] at stored
    obtain ⟨rfl, -, rfl⟩ := stored
    exact ⟨rfl, rfl⟩

theorem setComputeRes_quiet {blockId : BlockId} {blockHash : HashValue} {blockNum epoch : Nat}
    {events : List GravityEvent} (quiet : events.find? GravityEvent.isNewEpoch = none)
    (h : s.setComputeRes g blockId blockHash blockNum epoch events = .ok s') :
    s' = { s with blocks := s'.blocks } ∧ EntriesFrom (fun _ => True) s s' := by
  obtain ⟨_, _, _, stored, -, ⟨-, rfl⟩ | ⟨_, _, _, found, -, -⟩⟩ := setComputeRes_eq_ok h
  · exact ⟨rfl, entriesFrom_insert (fun _ => ⟨_, stored, trivial⟩) rfl⟩
  · rw [quiet] at found
    cases found

end BlockStateMachine

namespace BlockBufferManager

open BlockStateMachine

variable {g : Gaptos VS} {maxBlockSize : Nat} {m m' : BlockBufferManager VS} {reply : Reply VS}

theorem step_epochFieldsKept (c : Call) (keeps : c.KeepsEpochChange)
    (notRelease : c ≠ .releaseInflightBlocks) (h : step g maxBlockSize m c = some (m', reply)) :
    EpochFieldsKept m.blockStateMachine m'.blockStateMachine ∧ m'.bufferState = m.bufferState := by
  cases step_effect c h with
  | unchanged => exact ⟨EpochFieldsKept.of_blocks rfl, rfl⟩
  | init => exact keeps.elim
  | initEpoch => exact keeps.elim
  | setOrderedBlocks _ ok =>
      rcases setOrderedBlocks_eq_ok ok with rfl | ⟨-, -, -, rfl⟩
      · exact ⟨EpochFieldsKept.of_blocks rfl, rfl⟩
      · exact ⟨EpochFieldsKept.of_blocks rfl, rfl⟩
  | getExecutedRes _ found =>
      rcases getExecutedRes_eq_ok found with rfl | ⟨-, -, -, -, -, -, -, -, rfl⟩
      · exact ⟨EpochFieldsKept.of_blocks rfl, rfl⟩
      · exact ⟨EpochFieldsKept.of_blocks rfl, rfl⟩
  | setComputeRes _ ok => exact ⟨EpochFieldsKept.of_blocks (setComputeRes_quiet keeps ok).1, rfl⟩
  | setCommitBlocks =>
      exact ⟨EpochFieldsKept.of_blocks (setCommitBlocksLoop_commitsOnly _ _ _ _).fields, rfl⟩
  | getCommittedBlocks _ found =>
      exact ⟨EpochFieldsKept.of_blocks (getCommittedBlocks_notifiersTaken found).fields, rfl⟩
  | setState => exact ⟨⟨rfl, rfl, rfl, rfl, rfl⟩, rfl⟩
  | releaseInflightBlocks => exact (notRelease rfl).elim
  | consumeEpochChange => exact keeps.elim
  | removeCommittedBlocks =>
      unfold BlockStateMachine.removeCommittedBlocks
      split_ifs
      · exact ⟨EpochFieldsKept.of_blocks rfl, rfl⟩
      · exact ⟨EpochFieldsKept.of_blocks rfl, rfl⟩

/-- The window between `release_inflight_blocks` and `consume_epoch_change` of
the change to epoch `e'` recorded at block `n`. -/
structure Released (e' n : Nat) (m : BlockBufferManager VS) : Prop where
  currentEpoch_eq : m.blockStateMachine.currentEpoch = e'
  nextEpoch_eq : m.blockStateMachine.nextEpoch = none
  pending_eq : m.blockStateMachine.latestEpochChangeBlockNumber = n
  cache_eq : m.blockStateMachine.epochChangeBlockInfo = none
  ready_eq : m.blockStateMachine.epochChangeReady = true
  bufferState_eq : m.bufferState = .epochChange
  pruned : KeysBelow n m.blockStateMachine

/-- The change to epoch `e'` at block `n` is recorded and not yet consumed. -/
def Announced (e' n : Nat) (m : BlockBufferManager VS) : Prop :=
  (m.blockStateMachine.latestEpochChangeBlockNumber = n ∧ m.blockStateMachine.nextEpoch = some e') ∨
    Released e' n m

theorem Announced.release {e' n : Nat} (h : Announced e' n m) : Released e' n m.releaseInflightBlocks := by
  unfold releaseInflightBlocks
  rcases h with ⟨pending, next⟩ | released
  · have pendingChange : m.blockStateMachine.hasPendingEpochChange = true := by
      simp [hasPendingEpochChange, next]
    rw [if_pos pendingChange]
    refine ⟨by simp [releaseInflight, next], rfl, pending, rfl, rfl, rfl, ?_⟩
    rw [← pending]
    exact keysBelow_releaseInflight
  · split_ifs
    · refine ⟨?_, rfl, released.pending_eq, rfl, rfl, rfl, ?_⟩
      · simp [releaseInflight, released.nextEpoch_eq, released.currentEpoch_eq]
      · rw [← released.pending_eq]
        exact keysBelow_releaseInflight
    · exact released

/-- In the window `set_ordered_blocks` fails and leaves the manager alone. -/
theorem Released.setOrderedBlocks_rejected {e' n : Nat} (h : Released e' n m) (parentId : BlockId)
    (block : ExternalBlock) (round : Nat) :
    step g maxBlockSize m (.setOrderedBlocks parentId block round) =
      some (m, .error (.orderedEpochChangeWaiting n)) := by
  simp [step, isReady, h.bufferState_eq, BlockStateMachine.setOrderedBlocks, h.ready_eq,
    h.pending_eq, commitOrReply]

theorem step_entriesFrom_of_uncached (c : Call) (keeps : c.KeepsEpochChange)
    (noCache : m.blockStateMachine.epochChangeBlockInfo = none)
    (noOrder : m.blockStateMachine.epochChangeReady = true ∨
      ∀ parentId block round, c = .setOrderedBlocks parentId block round →
        block.epoch ≠ m.blockStateMachine.currentEpoch)
    (hs : step g maxBlockSize m c = some (m', reply)) :
    EntriesFrom (fun _ => True) m.blockStateMachine m'.blockStateMachine := by
  cases step_effect c hs with
  | unchanged => exact entriesFrom_of_blocks rfl
  | init => exact keeps.elim
  | initEpoch => exact keeps.elim
  | @setOrderedBlocks _ s' parentId block round _ ok =>
      rcases setOrderedBlocks_eq_ok ok with same | ⟨ready, sameEpoch, -, -⟩
      · exact entriesFrom_of_blocks (by rw [withMachine_blockStateMachine, same])
      · rcases noOrder with waiting | other
        · rw [waiting] at ready
          cases ready
        · exact (other parentId block round rfl sameEpoch).elim
  | getExecutedRes _ found =>
      rcases getExecutedRes_eq_ok found with rfl | ⟨-, -, -, cache, -, hc, -⟩
      · exact entriesFrom_of_blocks rfl
      · rw [noCache] at hc
        cases hc
  | setComputeRes _ ok => exact (setComputeRes_quiet keeps ok).2
  | setCommitBlocks => exact (setCommitBlocksLoop_commitsOnly _ _ _ _).entriesFrom fun _ _ _ _ _ => trivial
  | getCommittedBlocks _ found =>
      exact (getCommittedBlocks_notifiersTaken found).entriesFrom fun _ _ _ _ _ => trivial
  | setState => exact entriesFrom_of_blocks rfl
  | releaseInflightBlocks =>
      unfold releaseInflightBlocks
      split_ifs
      · exact entriesFrom_retain
          (fun key => decide (key.blockNumber ≤ m.blockStateMachine.latestEpochChangeBlockNumber)) rfl
      · exact entriesFrom_of_blocks rfl
  | consumeEpochChange => exact keeps.elim
  | removeCommittedBlocks =>
      unfold BlockStateMachine.removeCommittedBlocks
      split_ifs
      · exact entriesFrom_of_blocks rfl
      · exact entriesFrom_retain
          (fun key => decide (key.blockNumber ≥ m.blockStateMachine.latestFinalizedBlockNumber)) rfl

theorem Released.entriesFrom {e' n : Nat} (h : Released e' n m) (c : Call) (keeps : c.KeepsEpochChange)
    (hs : step g maxBlockSize m c = some (m', reply)) :
    EntriesFrom (fun _ => True) m.blockStateMachine m'.blockStateMachine :=
  step_entriesFrom_of_uncached c keeps h.cache_eq (.inl h.ready_eq) hs

theorem Released.of_step {e' n : Nat} (h : Released e' n m) (c : Call) (keeps : c.KeepsEpochChange)
    (hs : step g maxBlockSize m c = some (m', reply)) : Released e' n m' := by
  by_cases release : c = .releaseInflightBlocks
  · subst release
    simp only [step, Option.some.injEq, Prod.mk.injEq] at hs
    rw [← hs.1]
    exact Announced.release (Or.inr h)
  · obtain ⟨kept, state⟩ := step_epochFieldsKept c keeps release hs
    exact ⟨kept.currentEpoch_eq.trans h.currentEpoch_eq, kept.nextEpoch_eq.trans h.nextEpoch_eq,
      kept.pending_eq.trans h.pending_eq, kept.cache_eq.trans h.cache_eq,
      kept.ready_eq.trans h.ready_eq, state.trans h.bufferState_eq,
      h.pruned.of_entriesFrom (h.entriesFrom c keeps hs)⟩

theorem Announced.of_step {e' n : Nat} (h : Announced e' n m) (c : Call) (keeps : c.KeepsEpochChange)
    (hs : step g maxBlockSize m c = some (m', reply)) : Announced e' n m' := by
  rcases h with ⟨pending, next⟩ | released
  · by_cases release : c = .releaseInflightBlocks
    · subst release
      simp only [step, Option.some.injEq, Prod.mk.injEq] at hs
      rw [← hs.1]
      exact Or.inr (Announced.release (Or.inl ⟨pending, next⟩))
    · obtain ⟨kept, -⟩ := step_epochFieldsKept c keeps release hs
      exact Or.inl ⟨kept.pending_eq.trans pending, kept.nextEpoch_eq.trans next⟩
  · exact Or.inr (released.of_step c keeps hs)

theorem Released.consume {e' n : Nat} (h : Released e' n m) (npos : 0 < n)
    (hs : step g maxBlockSize m .consumeEpochChange = some (m', reply)) :
    reply = .epochChange e' n ∧ m'.blockStateMachine.currentEpoch = e' ∧
      KeysBelow n m'.blockStateMachine ∧ m'.blockStateMachine.epochChangeBlockInfo = none ∧
      m'.blockStateMachine.epochChangeReady = false ∧ m'.bufferState = .ready := by
  simp only [step, consumeEpochChange, Option.some.injEq, Prod.mk.injEq] at hs
  obtain ⟨rfl, rfl⟩ := hs
  refine ⟨?_, h.currentEpoch_eq, h.pruned, h.cache_eq, rfl, rfl⟩
  simp [epochChangeReply, h.nextEpoch_eq, h.currentEpoch_eq, h.pending_eq, Nat.pos_iff_ne_zero.mp npos]

/-- A ready manager with no change waiting accepts every block of its epoch. -/
theorem setOrderedBlocks_accepted (ready : m.isReady = true)
    (waiting : m.blockStateMachine.epochChangeReady = false) (parentId : BlockId)
    (block : ExternalBlock) (round : Nat) (same : block.epoch = m.blockStateMachine.currentEpoch) :
    ∃ m', step g maxBlockSize m (.setOrderedBlocks parentId block round) = some (m', .unit) := by
  simp only [step, ready, if_true, BlockStateMachine.setOrderedBlocks, waiting, same, Nat.lt_irrefl,
    Bool.false_eq_true, if_false]
  split <;> exact ⟨_, rfl⟩

/-- The calls of a manager that is not re-initialised and whose `NewEpoch`
events never announce an epoch below the current one. -/
def AnnouncesNoEarlierEpoch (m : BlockBufferManager VS) : Call → Prop
  | .init _ _ _ => False
  | .initEpoch _ => False
  | .setComputeRes _ _ _ _ events => ∀ e' bytes,
      events.find? GravityEvent.isNewEpoch = some (.newEpoch e' bytes) →
        m.blockStateMachine.currentEpoch ≤ e'
  | _ => True

/-- No recorded epoch change points below the current epoch. -/
def NextNotBehind (m : BlockBufferManager VS) : Prop :=
  ∀ e', m.blockStateMachine.nextEpoch = some e' → m.blockStateMachine.currentEpoch ≤ e'

/-- One allowed call never moves the epoch back and records no epoch behind it. -/
theorem step_currentEpoch_le (c : Call) (allowed : AnnouncesNoEarlierEpoch m c)
    (hs : step g maxBlockSize m c = some (m', reply)) (h : NextNotBehind m) :
    m.blockStateMachine.currentEpoch ≤ m'.blockStateMachine.currentEpoch ∧ NextNotBehind m' := by
  by_cases quiet : c.KeepsEpochChange ∧ c ≠ .releaseInflightBlocks
  · obtain ⟨kept, -⟩ := step_epochFieldsKept c quiet.1 quiet.2 hs
    refine ⟨Nat.le_of_eq kept.currentEpoch_eq.symm, fun e' next => ?_⟩
    rw [kept.currentEpoch_eq]
    exact h e' (kept.nextEpoch_eq ▸ next)
  · cases c with
    | init => exact allowed.elim
    | initEpoch => exact allowed.elim
    | setComputeRes blockId blockHash blockNum epoch events =>
        cases step_effect _ hs with
        | unchanged => exact ⟨Nat.le_refl _, h⟩
        | setComputeRes _ ok =>
            obtain ⟨-, -, -, -, -, ⟨-, rfl⟩ | ⟨newEpoch, bytes, vs, found, -, rfl⟩⟩ :=
              setComputeRes_eq_ok ok
            · exact ⟨Nat.le_refl _, h⟩
            · refine ⟨Nat.le_refl _, fun e' next => ?_⟩
              simp only [withMachine_blockStateMachine, handleEpochChangeSuffixBlocks,
                Option.some.injEq] at next
              subst next
              exact allowed newEpoch bytes found
    | releaseInflightBlocks =>
        simp only [step, Option.some.injEq, Prod.mk.injEq] at hs
        rw [← hs.1]
        unfold releaseInflightBlocks
        split_ifs
        · refine ⟨?_, fun e' next => by cases next⟩
          cases next : m.blockStateMachine.nextEpoch with
          | none => simp [releaseInflight, next]
          | some e' => simpa [releaseInflight, next] using h e' next
        · exact ⟨Nat.le_refl _, h⟩
    | consumeEpochChange =>
        simp only [step, Option.some.injEq, Prod.mk.injEq] at hs
        rw [← hs.1]
        exact ⟨Nat.le_refl _, h⟩
    | _ => exact (quiet ⟨trivial, by simp⟩).elim

theorem initialized_nextNotBehind (init : Initialized m) : NextNotBehind m := by
  obtain ⟨_, _, _, ok⟩ := init
  obtain ⟨-, plain | ⟨_, _, withCommit⟩⟩ := init_eq_ok ok
  · intro e' next
    rw [plain] at next
    cases next
  · intro e' next
    rw [withCommit] at next
    cases next

/-- The epoch-change handshake.  After `set_compute_res` records `NewEpoch(e')`
for block `n > 0`, a run that releases and then consumes, with any calls in
between that record no further change, do not re-initialise and do not
consume early, ends in epoch `e'` with no key above `n` and no cache;
`consume_epoch_change` reports `(e', n)` and `set_ordered_blocks` accepts
blocks of epoch `e'` again, while everywhere in the window it fails without
touching the manager.  Along every run of an initialised manager that is not
re-initialised and whose events never announce an epoch below the current one,
the epoch never decreases. -/
theorem epoch_change_handshake {m m₀ m₁ m₂ m₃ m₄ : BlockBufferManager VS} {blockId : BlockId}
    {blockHash : HashValue} {n epoch e' : Nat} {events : List GravityEvent} {bytes : List UInt8}
    {before window : List Call} {released : Reply VS}
    (announces : events.find? GravityEvent.isNewEpoch = some (.newEpoch e' bytes))
    (recorded : step g maxBlockSize m (.setComputeRes blockId blockHash n epoch events) =
      some (m₀, .unit))
    (npos : 0 < n)
    (runBefore : Exec (step g maxBlockSize) (fun _ c => c.KeepsEpochChange) m₀ before m₁)
    (release : step g maxBlockSize m₁ .releaseInflightBlocks = some (m₂, released))
    (runWindow : Exec (step g maxBlockSize) (fun _ c => c.KeepsEpochChange) m₂ window m₃)
    (consume : step g maxBlockSize m₃ .consumeEpochChange = some (m₄, reply)) :
    m₄.blockStateMachine.currentEpoch = e' ∧
    (∀ k st, m₄.blockStateMachine.blocks.get k = some st → k.blockNumber ≤ n) ∧
    m₄.blockStateMachine.epochChangeBlockInfo = none ∧
    reply = .epochChange e' n ∧
    (∀ parentId (block : ExternalBlock) round, block.epoch = e' →
      ∃ m₅, step g maxBlockSize m₄ (.setOrderedBlocks parentId block round) = some (m₅, .unit)) ∧
    (∀ calls m₅, Exec (step g maxBlockSize) (fun _ c => c.KeepsEpochChange) m₂ calls m₅ →
      ∀ parentId block round, step g maxBlockSize m₅ (.setOrderedBlocks parentId block round) =
        some (m₅, .error (.orderedEpochChangeWaiting n))) ∧
    (∀ (m' m'' : BlockBufferManager VS) calls,
      Reachable (step g maxBlockSize) AnnouncesNoEarlierEpoch Initialized m' →
      Exec (step g maxBlockSize) AnnouncesNoEarlierEpoch m' calls m'' →
      m'.blockStateMachine.currentEpoch ≤ m''.blockStateMachine.currentEpoch) := by
  -- the recorded change, carried through the run before the release
  have announced₀ : Announced e' n m₀ := by
    obtain ⟨s₀, ok, rfl⟩ := step_setComputeRes_unit recorded
    obtain ⟨next, pending⟩ := setComputeRes_records announces ok
    exact Or.inl ⟨pending, next⟩
  have announced₁ : Announced e' n m₁ :=
    runBefore.invariant (Announced e' n) (fun _ _ c _ h keeps hs => h.of_step c keeps hs) announced₀
  have released₂ : Released e' n m₂ := by
    simp only [step, Option.some.injEq, Prod.mk.injEq] at release
    rw [← release.1]
    exact announced₁.release
  have inWindow : ∀ calls m₅, Exec (step g maxBlockSize) (fun _ c => c.KeepsEpochChange) m₂ calls m₅ →
      Released e' n m₅ := fun _ _ run =>
    run.invariant (Released e' n) (fun _ _ c _ h keeps hs => h.of_step c keeps hs) released₂
  obtain ⟨replied, epochNow, pruned, noCache, notWaiting, ready⟩ :=
    (inWindow window m₃ runWindow).consume npos consume
  refine ⟨epochNow, pruned, noCache, replied, ?_, ?_, ?_⟩
  · intro parentId block round same
    exact setOrderedBlocks_accepted (by simp [isReady, ready]) notWaiting parentId block round
      (same.trans epochNow.symm)
  · intro calls m₅ run parentId block round
    exact (inWindow calls m₅ run).setOrderedBlocks_rejected parentId block round
  · intro m' m'' calls reach run
    have behind : NextNotBehind m' :=
      reach.invariant NextNotBehind (fun _ init => initialized_nextNotBehind init)
        (fun _ _ c _ h allowed hs => (step_currentEpoch_le c allowed hs h).2)
    exact run.chain (fun a b => a.blockStateMachine.currentEpoch ≤ b.blockStateMachine.currentEpoch)
      (fun _ => Nat.le_refl _) (fun _ _ _ => Nat.le_trans) NextNotBehind
      (fun _ _ c _ h allowed hs => step_currentEpoch_le c allowed hs h) behind

/-- The handshake for the change to epoch 2 recorded at block 1 of epoch 1,
with nothing run before the release or in the window. -/
theorem epoch_change_handshake_at_block_one :
    let g : Gaptos Unit := ⟨fun _ => .ok (), 0⟩
    let m : BlockBufferManager Unit :=
      { blockStateMachine := { (new : BlockBufferManager Unit).blockStateMachine with
          currentEpoch := 1
          blocks := KeyMap.empty.insert ⟨1, 1⟩ (.ordered ⟨11, 1, 100, 1, 0⟩ 10 5) }
        bufferState := .ready }
    let m₀ := (m.commitOrReply (m.blockStateMachine.setComputeRes g 11 111 1 1 [.newEpoch 2 []])).1
    let m₂ := m₀.releaseInflightBlocks
    let m₄ := m₂.consumeEpochChange.1
    m₄.blockStateMachine.currentEpoch = 2 ∧
    (∀ k st, m₄.blockStateMachine.blocks.get k = some st → k.blockNumber ≤ 1) ∧
    m₄.blockStateMachine.epochChangeBlockInfo = none ∧
    (Reply.epochChange 2 1 : Reply Unit) = .epochChange 2 1 ∧
    (∀ parentId (block : ExternalBlock) round, block.epoch = 2 →
      ∃ m₅, step g 256 m₄ (.setOrderedBlocks parentId block round) = some (m₅, .unit)) ∧
    (∀ calls m₅, Exec (step g 256) (fun _ c => c.KeepsEpochChange) m₂ calls m₅ →
      ∀ parentId block round, step g 256 m₅ (.setOrderedBlocks parentId block round) =
        some (m₅, .error (.orderedEpochChangeWaiting 1))) ∧
    (∀ (m' m'' : BlockBufferManager Unit) calls,
      Reachable (step g 256) AnnouncesNoEarlierEpoch Initialized m' →
      Exec (step g 256) AnnouncesNoEarlierEpoch m' calls m'' →
      m'.blockStateMachine.currentEpoch ≤ m''.blockStateMachine.currentEpoch) := by
  intro g m m₀ m₂ m₄
  have recorded : step g 256 m (.setComputeRes 11 111 1 1 [.newEpoch 2 []]) = some (m₀, .unit) := rfl
  have release : step g 256 m₀ .releaseInflightBlocks = some (m₂, .unit) := rfl
  have consume : step g 256 m₂ .consumeEpochChange = some (m₄, .epochChange 2 1) := rfl
  exact epoch_change_handshake rfl recorded (by decide) (.nil m₀) release (.nil m₂) consume

/-- A `NewEpoch(0)` event recorded in epoch 1 takes the manager back to epoch 0
at the next `release_inflight_blocks`, with no `init` after the first. -/
example :
    let g : Gaptos Unit := ⟨fun _ => .ok (), 0⟩
    let calls : List Call :=
      [.init 0 KeyMap.empty 1, .setOrderedBlocks 10 ⟨11, 1, 100, 1, 0⟩ 5,
        .setComputeRes 11 111 1 1 [.newEpoch 0 []]]
    (run (step g 256) new calls).map (fun p => p.1.blockStateMachine.currentEpoch) = some 1 ∧
      (run (step g 256) new (calls ++ [.releaseInflightBlocks])).map
          (fun p => p.1.blockStateMachine.currentEpoch) = some 0 := by
  decide +kernel

end BlockBufferManager

end GravitySdk.BlockBuffer
