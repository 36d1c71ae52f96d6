/- One inversion lemma for each block operation.
   digest: What a successful call can have done to the state machine, stated
   once so that the invariant proofs never unfold an operation again. -/

import GravitySdk.BlockBuffer.Step

set_option autoImplicit false
set_option relaxedAutoImplicit false

namespace GravitySdk.BlockBuffer

open GravitySdk.Lib

variable {VS : Type}

namespace BlockStateMachine

variable {g : Gaptos VS} {s s' : BlockStateMachine VS}

theorem setOrderedBlocks_eq_ok {parentId : BlockId} {block : ExternalBlock} {round : Nat}
    (h : s.setOrderedBlocks parentId block round = .ok s') :
    s' = s ∨
      (s.epochChangeReady = false ∧ block.epoch = s.currentEpoch ∧
        s.blocks.get ⟨block.epoch, block.blockNumber⟩ = none ∧
        s' = { s with blocks := (s.blocks.insert ⟨block.epoch, block.blockNumber⟩
          (.ordered block (s.actualParentId block parentId) round)) }) := by
  unfold setOrderedBlocks at h
  split_ifs at h with ready old future
  · exact Or.inl (Except.ok.inj h).symm
  · have same : block.epoch = s.currentEpoch := by omega
    dsimp only at h
    cases free : s.blocks.get ⟨block.epoch, block.blockNumber⟩ with
    | some state =>
        simp only [free, Except.ok.injEq] at h
        exact Or.inl h.symm
    | none =>
        simp only [free, Except.ok.injEq] at h
        exact Or.inr ⟨by simpa using ready, same, rfl, h.symm⟩

theorem getExecutedRes_eq_ok {blockId : BlockId} {blockNum epoch : Nat}
    {r : StateComputeResult VS}
    (h : s.getExecutedRes g blockId blockNum epoch = some (.ok (r, s'))) :
    s' = s ∨
      ∃ block parentId round cache,
        s.blocks.get ⟨epoch, blockNum⟩ = some (.ordered block parentId round) ∧
        s.epochChangeBlockInfo = some cache ∧ blockNum > cache.epochBlockInfo.blockNumber ∧
        r = StateComputeResult.newDummyWithEpochState g cache.epochState ∧
        s' = { s with blocks := s.blocks.insert ⟨epoch, blockNum⟩ (.computed blockId r) } := by
  unfold getExecutedRes at h
  dsimp only at h
  cases stored : s.blocks.get ⟨epoch, blockNum⟩ with
  | none =>
      simp only [stored] at h
      split_ifs at h
      · simp only [Option.some.injEq, Except.ok.injEq, Prod.mk.injEq] at h
        exact Or.inl h.2.symm
      · simp at h
  | some state =>
      cases state with
      | ordered block parentId round =>
          simp only [stored] at h
          cases hcache : s.epochChangeBlockInfo with
          | none => simp [hcache] at h
          | some cache =>
              simp only [hcache] at h
              split_ifs at h with above
              simp only [Option.some.injEq, Except.ok.injEq, Prod.mk.injEq] at h
              obtain ⟨rfl, rfl⟩ := h
              exact Or.inr ⟨block, parentId, round, cache, rfl, rfl, above, rfl, rfl⟩
      | computed id r' =>
          simp only [stored] at h
          split_ifs at h
          · simp at h
          · simp only [Option.some.injEq, Except.ok.injEq, Prod.mk.injEq] at h
            exact Or.inl h.2.symm
      | committed hash r' id notifier =>
          simp only [stored] at h
          split_ifs at h
          · simp at h
          · simp only [Option.some.injEq, Except.ok.injEq, Prod.mk.injEq] at h
            exact Or.inl h.2.symm
      | historical id => simp [stored] at h

theorem calculateNewEpochState_eq_ok {events : List GravityEvent} {blockNum : Nat}
    {es : Option (EpochState VS)} (h : calculateNewEpochState g events blockNum s = .ok (es, s')) :
    (events.find? GravityEvent.isNewEpoch = none ∧ es = none ∧ s' = s) ∨
      ∃ newEpoch bytes validatorSet,
        events.find? GravityEvent.isNewEpoch = some (.newEpoch newEpoch bytes) ∧
        g.decodeValidatorSet bytes = .ok validatorSet ∧
        es = some ⟨newEpoch, validatorSet⟩ ∧
        s' = { s with latestEpochChangeBlockNumber := blockNum, nextEpoch := some newEpoch } := by
  unfold calculateNewEpochState at h
  split_ifs at h with empty
  · simp only [Except.ok.injEq, Prod.mk.injEq] at h
    rw [List.isEmpty_iff.mp empty]
    exact Or.inl ⟨rfl, h.1.symm, h.2.symm⟩
  · split at h
    · rename_i notFound
      simp only [Except.ok.injEq, Prod.mk.injEq] at h
      exact Or.inl ⟨notFound, h.1.symm, h.2.symm⟩
    · rename_i newEpoch bytes found
      split at h
      · cases h
      · rename_i validatorSet decoded
        simp only [Except.ok.injEq, Prod.mk.injEq] at h
        obtain ⟨rfl, rfl⟩ := h
        exact Or.inr ⟨newEpoch, bytes, validatorSet, found, decoded, rfl, rfl⟩
    · cases h

/-- The result `set_compute_res` stores for a block it computes. -/
def computedResult (blockHash : HashValue) (block : ExternalBlock) (events : List GravityEvent)
    (es : Option (EpochState VS)) : StateComputeResult VS :=
  { executionOutput := { data := blockHash, txnNum := block.txnCount, events := events }
    epochState := es }

@[simp] theorem handleEpochChangeSuffixBlocks_get (s : BlockStateMachine VS) (n epoch : Nat)
    (blockId : BlockId) (ts round : Nat) (hash : HashValue) (es : EpochState VS) (k : BlockKey) :
    (handleEpochChangeSuffixBlocks g s n epoch blockId ts round hash es).blocks.get k =
      (s.blocks.get k).map fun state =>
        if k.epoch = epoch ∧ k.blockNumber > n ∧ state.isOrdered = true then
          .computed state.getBlockId (StateComputeResult.newDummyWithEpochState g es)
        else state := by
  simp [handleEpochChangeSuffixBlocks]

theorem setComputeRes_eq_ok {blockId : BlockId} {blockHash : HashValue} {blockNum epoch : Nat}
    {events : List GravityEvent} (h : s.setComputeRes g blockId blockHash blockNum epoch events = .ok s') :
    ∃ block parentId round,
      s.blocks.get ⟨epoch, blockNum⟩ = some (.ordered block parentId round) ∧ block.blockId = blockId ∧
      ((events.find? GravityEvent.isNewEpoch = none ∧
          s' = { s with blocks := (s.blocks.insert ⟨epoch, blockNum⟩
            (.computed blockId (computedResult blockHash block events none))) }) ∨
       ∃ newEpoch bytes validatorSet,
          events.find? GravityEvent.isNewEpoch = some (.newEpoch newEpoch bytes) ∧
          g.decodeValidatorSet bytes = .ok validatorSet ∧
          s' = handleEpochChangeSuffixBlocks g
            { s with
              latestEpochChangeBlockNumber := blockNum
              nextEpoch := some newEpoch
              blocks := (s.blocks.insert ⟨epoch, blockNum⟩
                (.computed blockId (computedResult blockHash block events (some ⟨newEpoch, validatorSet⟩)))) }
            blockNum epoch blockId block.usecs round blockHash ⟨newEpoch, validatorSet⟩) := by
  unfold setComputeRes at h
  dsimp only at h
  cases stored : s.blocks.get ⟨epoch, blockNum⟩ with
  | none => simp [stored] at h
  | some state =>
      cases state with
      | ordered block parentId round =>
          simp only [stored] at h
          split_ifs at h with mismatch
          have same : block.blockId = blockId := by simpa using mismatch
          cases hcalc : calculateNewEpochState g events blockNum s with
          | error e => simp [hcalc] at h
          | ok p =>
              obtain ⟨newEpochState, s1⟩ := p
              simp only [hcalc] at h
              refine ⟨block, parentId, round, rfl, same, ?_⟩
              rcases calculateNewEpochState_eq_ok hcalc with
                ⟨notFound, rfl, rfl⟩ | ⟨newEpoch, bytes, vs, found, decoded, rfl, rfl⟩
              · simp only [Except.ok.injEq] at h
                exact Or.inl ⟨notFound, h.symm⟩
              · simp only [Except.ok.injEq] at h
                exact Or.inr ⟨newEpoch, bytes, vs, found, decoded, h.symm⟩
      | computed id r => simp [stored] at h
      | committed hash r id notifier => simp [stored] at h
      | historical id => simp [stored] at h

/-- `s'` differs from `s` only in that some `Computed` entries became
`Committed`, keeping their id and compute result. -/
structure CommitsOnly (s s' : BlockStateMachine VS) : Prop where
  fields : s' = { s with blocks := s'.blocks }
  entry : ∀ k, s'.blocks.get k = s.blocks.get k ∨
    ∃ hash id r notifier, s.blocks.get k = some (.computed id r) ∧
      s'.blocks.get k = some (.committed hash r id notifier)

theorem CommitsOnly.refl (s : BlockStateMachine VS) : CommitsOnly s s :=
  ⟨rfl, fun _ => Or.inl rfl⟩

theorem CommitsOnly.trans {s₁ s₂ s₃ : BlockStateMachine VS} (h₁ : CommitsOnly s₁ s₂)
    (h₂ : CommitsOnly s₂ s₃) : CommitsOnly s₁ s₃ := by
  refine ⟨?_, fun k => ?_⟩
  · rw [h₂.fields, h₁.fields]
  · rcases h₂.entry k with same₂ | ⟨hash, id, r, n, was, now⟩
    · rw [same₂]
      exact h₁.entry k
    · rcases h₁.entry k with same₁ | ⟨_, _, _, _, _, now₁⟩
      · exact Or.inr ⟨hash, id, r, n, same₁ ▸ was, now⟩
      · rw [now₁] at was
        cases was

theorem CommitsOnly.commit (s : BlockStateMachine VS) (k : BlockKey) (hash : Option HashValue)
    (id : BlockId) (r : StateComputeResult VS) (notifier : Bool)
    (stored : s.blocks.get k = some (.computed id r)) :
    CommitsOnly s { s with blocks := s.blocks.insert k (.committed hash r id notifier) } := by
  refine ⟨rfl, fun k' => ?_⟩
  by_cases hk : k' = k
  · subst hk
    exact Or.inr ⟨hash, id, r, notifier, stored, by simp⟩
  · exact Or.inl (KeyMap.get_insert_ne _ _ hk)

theorem setCommitBlocksLoop_commitsOnly (epoch : Nat) (refs : List BlockHashRef) (acc : List Nat)
    (s : BlockStateMachine VS) : CommitsOnly s (setCommitBlocksLoop epoch s refs acc).1 := by
  induction refs generalizing s acc with
  | nil => exact CommitsOnly.refl s
  | cons r rest ih =>
      unfold setCommitBlocksLoop
      dsimp only
      cases stored : s.blocks.get ⟨epoch, r.num⟩ with
      | none =>
          dsimp only
          by_cases stale : s.isStaleCommitAfterEpochChange epoch r.num = true
          · rw [if_pos stale]
            exact ih _ _
          · rw [if_neg stale]
            exact CommitsOnly.refl s
      | some state =>
          cases state with
          | computed id computeResult =>
              dsimp only
              by_cases same : id = r.blockId
              · rw [if_pos same]
                rw [same] at stored
                exact (CommitsOnly.commit s _ r.hash r.blockId computeResult _ stored).trans (ih _ _)
              · rw [if_neg same]
                exact CommitsOnly.refl s
          | committed hash computeResult id notifier =>
              dsimp only
              split_ifs
              · exact CommitsOnly.refl s
              · exact ih _ _
          | ordered block parentId round => exact CommitsOnly.refl s
          | historical id =>
              dsimp only
              split_ifs
              · exact CommitsOnly.refl s
              · exact ih _ _

/-- `s'` differs from `s` only in persist notifiers handed out by
`get_committed_blocks`. -/
structure NotifiersTaken (s s' : BlockStateMachine VS) : Prop where
  fields : s' = { s with blocks := s'.blocks }
  entry : ∀ k, s'.blocks.get k = s.blocks.get k ∨
    ∃ hash r id notifier, s.blocks.get k = some (.committed hash r id notifier) ∧
      s'.blocks.get k = some (.committed hash r id false)

theorem NotifiersTaken.refl (s : BlockStateMachine VS) : NotifiersTaken s s :=
  ⟨rfl, fun _ => Or.inl rfl⟩

theorem NotifiersTaken.trans {s₁ s₂ s₃ : BlockStateMachine VS} (h₁ : NotifiersTaken s₁ s₂)
    (h₂ : NotifiersTaken s₂ s₃) : NotifiersTaken s₁ s₃ := by
  refine ⟨?_, fun k => ?_⟩
  · rw [h₂.fields, h₁.fields]
  · rcases h₂.entry k with same₂ | ⟨hash, r, id, n, was, now⟩
    · rw [same₂]
      exact h₁.entry k
    · rcases h₁.entry k with same₁ | ⟨hash₁, r₁, id₁, n₁, was₁, now₁⟩
      · exact Or.inr ⟨hash, r, id, n, same₁ ▸ was, now⟩
      · rw [now₁] at was
        simp only [Option.some.injEq, BlockState.committed.injEq] at was
        obtain ⟨rfl, rfl, rfl, -⟩ := was
        exact Or.inr ⟨hash₁, r₁, id₁, n₁, was₁, now⟩

theorem NotifiersTaken.take (s : BlockStateMachine VS) (k : BlockKey) (hash : Option HashValue)
    (r : StateComputeResult VS) (id : BlockId) (notifier : Bool)
    (stored : s.blocks.get k = some (.committed hash r id notifier)) :
    NotifiersTaken s { s with blocks := s.blocks.insert k (.committed hash r id false) } := by
  refine ⟨rfl, fun k' => ?_⟩
  by_cases hk : k' = k
  · subst hk
    exact Or.inr ⟨hash, r, id, notifier, stored, by simp⟩
  · exact Or.inl (KeyMap.get_insert_ne _ _ hk)

theorem collectCommitted_notifiersTaken (epoch maxSize : Nat) (n : Nat) (acc : List CommittedRef)
    (fuel : Nat) (s : BlockStateMachine VS) :
    NotifiersTaken s (collectCommitted s epoch maxSize n acc fuel).1 := by
  induction fuel generalizing s n acc with
  | zero =>
      unfold collectCommitted
      dsimp only
      split_ifs
      · exact NotifiersTaken.refl s
      · cases stored : s.blocks.get ⟨epoch, n⟩ with
        | none => dsimp only; exact NotifiersTaken.refl s
        | some state =>
            cases state with
            | committed hash r id notifier =>
                dsimp only
                split_ifs <;> exact NotifiersTaken.take s _ hash r id notifier stored
            | _ => dsimp only; exact NotifiersTaken.refl s
  | succ fuel ih =>
      unfold collectCommitted
      dsimp only
      split_ifs
      · exact NotifiersTaken.refl s
      · cases stored : s.blocks.get ⟨epoch, n⟩ with
        | none => dsimp only; exact NotifiersTaken.refl s
        | some state =>
            cases state with
            | committed hash r id notifier =>
                dsimp only
                split_ifs
                · exact NotifiersTaken.take s _ hash r id notifier stored
                · exact (NotifiersTaken.take s _ hash r id notifier stored).trans (ih _ _ _)
            | _ => dsimp only; exact NotifiersTaken.refl s

theorem getCommittedBlocks_eq_some {startNum : Nat} {maxSize : Option Nat} {epoch : Nat}
    {blocks : List CommittedRef} (h : s.getCommittedBlocks startNum maxSize epoch = some (blocks, s')) :
    collectCommitted s epoch (maxSize.getD usizeMax) startNum [] (maxSize.getD usizeMax) = (s', blocks) := by
  unfold getCommittedBlocks at h
  dsimp only at h
  cases collected : collectCommitted s epoch (maxSize.getD usizeMax) startNum [] (maxSize.getD usizeMax) with
  | mk s₁ result =>
      rw [collected] at h
      cases result with
      | nil => cases h
      | cons head tail =>
          simp only [Option.some.injEq, Prod.mk.injEq] at h
          rw [h.1, h.2]

theorem getCommittedBlocks_notifiersTaken {startNum : Nat} {maxSize : Option Nat} {epoch : Nat}
    {blocks : List CommittedRef} (h : s.getCommittedBlocks startNum maxSize epoch = some (blocks, s')) :
    NotifiersTaken s s' := by
  have taken := collectCommitted_notifiersTaken epoch (maxSize.getD usizeMax) startNum []
    (maxSize.getD usizeMax) s
  rwa [getCommittedBlocks_eq_some h] at taken

/-- Every entry of `s'` that satisfies `P` was already an entry of `s`, under
the same key, that satisfies `P`. -/
def EntriesFrom (P : BlockState VS → Prop) (s s' : BlockStateMachine VS) : Prop :=
  ∀ k st', s'.blocks.get k = some st' → P st' → ∃ st, s.blocks.get k = some st ∧ P st

section EntriesFrom

variable {P : BlockState VS → Prop}

theorem entriesFrom_of_blocks (h : s'.blocks = s.blocks) : EntriesFrom P s s' := by
  intro k st' stored held
  exact ⟨st', h ▸ stored, held⟩

theorem entriesFrom_insert {k₀ : BlockKey} {v : BlockState VS}
    (fresh : P v → ∃ st, s.blocks.get k₀ = some st ∧ P st)
    (h : s'.blocks = s.blocks.insert k₀ v) : EntriesFrom P s s' := by
  intro k st' stored held
  rw [h, KeyMap.get_insert] at stored
  split_ifs at stored with atKey
  · cases stored
    subst atKey
    exact fresh held
  · exact ⟨st', stored, held⟩

theorem entriesFrom_retain (p : BlockKey → Bool) (h : s'.blocks = s.blocks.retain p) :
    EntriesFrom P s s' := by
  intro k st' stored held
  rw [h, KeyMap.get_retain] at stored
  split_ifs at stored
  exact ⟨st', stored, held⟩

theorem CommitsOnly.entriesFrom (h : CommitsOnly s s')
    (hP : ∀ hash r id notifier, P (.committed hash r id notifier) → P (.computed id r)) :
    EntriesFrom P s s' := by
  intro k st' stored held
  rcases h.entry k with same | ⟨hash, id, r, notifier, was, now⟩
  · exact ⟨st', same ▸ stored, held⟩
  · rw [now] at stored
    cases stored
    exact ⟨_, was, hP _ _ _ _ held⟩

theorem NotifiersTaken.entriesFrom (h : NotifiersTaken s s')
    (hP : ∀ hash r id notifier, P (.committed hash r id false) → P (.committed hash r id notifier)) :
    EntriesFrom P s s' := by
  intro k st' stored held
  rcases h.entry k with same | ⟨hash, r, id, notifier, was, now⟩
  · exact ⟨st', same ▸ stored, held⟩
  · rw [now] at stored
    cases stored
    exact ⟨_, was, hP _ _ _ _ held⟩

end EntriesFrom

end BlockStateMachine

namespace BlockBufferManager

theorem init_eq_ok {m m' : BlockBufferManager VS} {latestCommitBlockNumber : Nat}
    {map : KeyMap Nat (Nat × BlockId)} {initialEpoch : Nat}
    (h : m.init latestCommitBlockNumber map initialEpoch = .ok m') :
    let s1 := { m.blockStateMachine with
      latestCommitBlockNumber := latestCommitBlockNumber
      latestFinalizedBlockNumber := latestCommitBlockNumber
      blockNumberToBlockId := map.mapVals Prod.snd
      currentEpoch := initialEpoch }
    m'.bufferState = .ready ∧
      (m'.blockStateMachine = s1 ∨
        ∃ commitBlockEpoch commitBlockId,
          m'.blockStateMachine = { s1 with
            blocks := s1.blocks.insert ⟨commitBlockEpoch, latestCommitBlockNumber⟩
              (.historical commitBlockId)
            latestEpochChangeBlockNumber := 0 }) := by
  unfold init at h
  dsimp only at h
  split at h
  · cases h
  · rename_i commitBlock _
    simp only [Except.ok.injEq] at h
    subst h
    refine ⟨rfl, ?_⟩
    cases commitBlock with
    | none => exact Or.inl rfl
    | some entry => exact Or.inr ⟨entry.1, entry.2, rfl⟩

/-- What one completed call did to the manager.  Failed calls are `unchanged`,
except `set_commit_blocks`, whose loop may have written before it failed. -/
inductive Effect (g : Gaptos VS) (maxBlockSize : Nat) :
    Call → BlockBufferManager VS → BlockBufferManager VS → Prop
  | unchanged {c : Call} {m : BlockBufferManager VS} : Effect g maxBlockSize c m m
  | init {m m' : BlockBufferManager VS} {latestCommitBlockNumber : Nat}
      {map : KeyMap Nat (Nat × BlockId)} {initialEpoch : Nat} :
      m.init latestCommitBlockNumber map initialEpoch = .ok m' →
      Effect g maxBlockSize (.init latestCommitBlockNumber map initialEpoch) m m'
  | initEpoch {m : BlockBufferManager VS} {epoch : Nat} :
      Effect g maxBlockSize (.initEpoch epoch) m
        (m.withMachine { m.blockStateMachine with currentEpoch := epoch })
  | setOrderedBlocks {m : BlockBufferManager VS} {s' : BlockStateMachine VS} {parentId : BlockId}
      {block : ExternalBlock} {round : Nat} : m.isReady = true →
      m.blockStateMachine.setOrderedBlocks parentId block round = .ok s' →
      Effect g maxBlockSize (.setOrderedBlocks parentId block round) m (m.withMachine s')
  | getExecutedRes {m : BlockBufferManager VS} {s' : BlockStateMachine VS} {blockId : BlockId}
      {blockNum epoch : Nat} {r : StateComputeResult VS} : m.isReady = true →
      m.blockStateMachine.getExecutedRes g blockId blockNum epoch = some (.ok (r, s')) →
      Effect g maxBlockSize (.getExecutedRes blockId blockNum epoch) m (m.withMachine s')
  | setComputeRes {m : BlockBufferManager VS} {s' : BlockStateMachine VS} {blockId : BlockId}
      {blockHash : HashValue} {blockNum epoch : Nat} {events : List GravityEvent} : m.isReady = true →
      m.blockStateMachine.setComputeRes g blockId blockHash blockNum epoch events = .ok s' →
      Effect g maxBlockSize (.setComputeRes blockId blockHash blockNum epoch events) m (m.withMachine s')
  | setCommitBlocks {m : BlockBufferManager VS} {blockIds : List BlockHashRef} {epoch : Nat} :
      m.isReady = true →
      Effect g maxBlockSize (.setCommitBlocks blockIds epoch) m
        (m.withMachine (m.blockStateMachine.setCommitBlocks blockIds epoch).1)
  | getCommittedBlocks {m : BlockBufferManager VS} {s' : BlockStateMachine VS} {startNum : Nat}
      {maxSize : Option Nat} {epoch : Nat} {blocks : List CommittedRef} : m.isReady = true →
      m.blockStateMachine.getCommittedBlocks startNum maxSize epoch = some (blocks, s') →
      Effect g maxBlockSize (.getCommittedBlocks startNum maxSize epoch) m (m.withMachine s')
  | setState {m : BlockBufferManager VS} {latestCommitBlockNumber latestFinalizedBlockNumber : Nat} :
      Effect g maxBlockSize (.setState latestCommitBlockNumber latestFinalizedBlockNumber) m
        (m.withMachine (m.blockStateMachine.setState latestCommitBlockNumber latestFinalizedBlockNumber))
  | releaseInflightBlocks {m : BlockBufferManager VS} :
      Effect g maxBlockSize .releaseInflightBlocks m m.releaseInflightBlocks
  | consumeEpochChange {m : BlockBufferManager VS} :
      Effect g maxBlockSize .consumeEpochChange m m.consumeEpochChange.1
  | removeCommittedBlocks {m : BlockBufferManager VS} :
      Effect g maxBlockSize .removeCommittedBlocks m
        (m.withMachine (m.blockStateMachine.removeCommittedBlocks maxBlockSize))

variable {g : Gaptos VS} {maxBlockSize : Nat} {m m' : BlockBufferManager VS} {reply : Reply VS}

private theorem commitOrReply_effect {c : Call} {r : Except BbmError (BlockStateMachine VS)}
    (h : m.commitOrReply r = (m', reply))
    (ok : ∀ s, r = .ok s → Effect g maxBlockSize c m (m.withMachine s)) :
    Effect g maxBlockSize c m m' := by
  unfold commitOrReply at h
  split at h
  · rename_i s
    simp only [Prod.mk.injEq] at h
    rw [← h.1]
    exact ok s rfl
  · simp only [Prod.mk.injEq] at h
    rw [← h.1]
    exact .unchanged

theorem step_effect (c : Call) (h : step g maxBlockSize m c = some (m', reply)) :
    Effect g maxBlockSize c m m' := by
  cases c with
  | init latestCommitBlockNumber map initialEpoch =>
      simp only [step] at h
      split at h
      · rename_i m₁ ok
        simp only [Option.some.injEq, Prod.mk.injEq] at h
        rw [← h.1]
        exact .init ok
      · simp only [Option.some.injEq, Prod.mk.injEq] at h
        rw [← h.1]
        exact .unchanged
  | initEpoch epoch =>
      simp only [step, Option.some.injEq, Prod.mk.injEq] at h
      rw [← h.1]
      exact .initEpoch
  | setOrderedBlocks parentId block round =>
      simp only [step] at h
      split_ifs at h with ready
      exact commitOrReply_effect (Option.some.inj h) fun s ok => .setOrderedBlocks ready ok
  | getOrderedBlocks startNum maxSize expectedEpoch =>
      simp only [step] at h
      split_ifs at h
      obtain ⟨x, -, hx⟩ := Option.map_eq_some_iff.mp h
      cases x <;> simp only [Prod.mk.injEq] at hx <;> rw [← hx.1] <;> exact .unchanged
  | getExecutedRes blockId blockNum epoch =>
      simp only [step] at h
      split_ifs at h with ready
      obtain ⟨x, found, hx⟩ := Option.map_eq_some_iff.mp h
      rcases x with e | ⟨r, s⟩
      · simp only [Prod.mk.injEq] at hx
        rw [← hx.1]
        exact .unchanged
      · simp only [Prod.mk.injEq] at hx
        rw [← hx.1]
        exact .getExecutedRes ready found
  | setComputeRes blockId blockHash blockNum epoch events =>
      simp only [step] at h
      split_ifs at h with ready
      exact commitOrReply_effect (Option.some.inj h) fun s ok => .setComputeRes ready ok
  | setCommitBlocks blockIds epoch =>
      simp only [step] at h
      split_ifs at h with ready
      split at h <;>
      · rename_i s _ loop
        simp only [Option.some.injEq, Prod.mk.injEq] at h
        rw [← h.1]
        have effect : Effect g maxBlockSize (.setCommitBlocks blockIds epoch) m
            (m.withMachine (m.blockStateMachine.setCommitBlocks blockIds epoch).1) :=
          .setCommitBlocks ready
        rwa [loop] at effect
  | getCommittedBlocks startNum maxSize epoch =>
      simp only [step] at h
      split_ifs at h with ready
      obtain ⟨⟨blocks, s⟩, found, hx⟩ := Option.map_eq_some_iff.mp h
      simp only [Prod.mk.injEq] at hx
      rw [← hx.1]
      exact .getCommittedBlocks ready found
  | setState =>
      simp only [step, Option.some.injEq, Prod.mk.injEq] at h
      rw [← h.1]
      exact .setState
  | getEpochChangeBlockInfo =>
      simp only [step, Option.some.injEq, Prod.mk.injEq] at h
      rw [← h.1]
      exact .unchanged
  | releaseInflightBlocks =>
      simp only [step, Option.some.injEq, Prod.mk.injEq] at h
      rw [← h.1]
      exact .releaseInflightBlocks
  | consumeEpochChange =>
      simp only [step, Option.some.injEq, Prod.mk.injEq] at h
      rw [← h.1]
      exact .consumeEpochChange
  | removeCommittedBlocks =>
      simp only [step, Option.some.injEq, Prod.mk.injEq] at h
      rw [← h.1]
      exact .removeCommittedBlocks

theorem step_setComputeRes_unit {blockId : BlockId} {blockHash : HashValue} {blockNum epoch : Nat}
    {events : List GravityEvent}
    (h : step g maxBlockSize m (.setComputeRes blockId blockHash blockNum epoch events) = some (m', .unit)) :
    ∃ s', m.blockStateMachine.setComputeRes g blockId blockHash blockNum epoch events = .ok s' ∧
      m' = m.withMachine s' := by
  simp only [step] at h
  split_ifs at h
  unfold commitOrReply at h
  split at h
  · rename_i s' ok
    simp only [Option.some.injEq, Prod.mk.injEq] at h
    exact ⟨s', ok, h.1.symm⟩
  · simp at h

end BlockBufferManager

end GravitySdk.BlockBuffer
