/- The life of one block entry: Ordered, then Computed, then Committed.
   digest: Every call of a running manager moves a kept entry at most one stage
   forward and, but for the suffix branch of get_executed_res, keeps its id;
   that branch stores the caller's id unchecked. -/

import GravitySdk.BlockBuffer.Spec

set_option autoImplicit false
set_option relaxedAutoImplicit false

namespace GravitySdk.BlockBuffer

open GravitySdk.Lib GravitySdk.Lib.Transition

variable {VS : Type}

/-- How one call may rewrite an entry that it keeps: not at all, or one stage
forward.  A `Historical` entry can only stay. -/
inductive Advances : BlockState VS → BlockState VS → Prop
  | stay (a : BlockState VS) : Advances a a
  | compute (block : ExternalBlock) (parentId : BlockId) (round : Nat) (id : BlockId)
      (r : StateComputeResult VS) : Advances (.ordered block parentId round) (.computed id r)
  | commit (hash : Option HashValue) (id : BlockId) (r : StateComputeResult VS) (notifier : Bool) :
      Advances (.computed id r) (.committed hash r id notifier)
  | takeNotifier (hash : Option HashValue) (r : StateComputeResult VS) (id : BlockId)
      (notifier : Bool) : Advances (.committed hash r id notifier) (.committed hash r id false)

namespace BlockStateMachine

/-- Every entry kept from `s` to `s'` advanced. -/
def AdvancesEntries (s s' : BlockStateMachine VS) : Prop :=
  ∀ k a b, s.blocks.get k = some a → s'.blocks.get k = some b → Advances a b

/-- Every entry kept from `s` to `s'` kept its block id. -/
def KeepsIds (s s' : BlockStateMachine VS) : Prop :=
  ∀ k a b, s.blocks.get k = some a → s'.blocks.get k = some b → b.getBlockId = a.getBlockId

variable {g : Gaptos VS} {s s' : BlockStateMachine VS}

theorem advancesEntries_of_blocks (h : s'.blocks = s.blocks) : AdvancesEntries s s' := by
  intro k a b ha hb
  rw [h, ha] at hb
  cases hb
  exact .stay a

theorem keepsIds_of_blocks (h : s'.blocks = s.blocks) : KeepsIds s s' := by
  intro k a b ha hb
  rw [h, ha] at hb
  cases hb
  rfl

theorem advancesEntries_retain (p : BlockKey → Bool) (h : s'.blocks = s.blocks.retain p) :
    AdvancesEntries s s' := by
  intro k a b ha hb
  rw [h, KeyMap.get_retain, ha] at hb
  split_ifs at hb
  cases hb
  exact .stay a

theorem keepsIds_retain (p : BlockKey → Bool) (h : s'.blocks = s.blocks.retain p) :
    KeepsIds s s' := by
  intro k a b ha hb
  rw [h, KeyMap.get_retain, ha] at hb
  split_ifs at hb
  cases hb
  rfl

theorem advances_keepsIds_of_entries
    (h : ∀ k a b, s.blocks.get k = some a → s'.blocks.get k = some b →
      Advances a b ∧ b.getBlockId = a.getBlockId) :
    AdvancesEntries s s' ∧ KeepsIds s s' :=
  ⟨fun k a b ha hb => (h k a b ha hb).1, fun k a b ha hb => (h k a b ha hb).2⟩

theorem advancesEntries_insert_free {k₀ : BlockKey} {v : BlockState VS}
    (free : s.blocks.get k₀ = none) (h : s'.blocks = s.blocks.insert k₀ v) :
    AdvancesEntries s s' ∧ KeepsIds s s' := by
  refine advances_keepsIds_of_entries fun k a b ha hb => ?_
  rw [h, KeyMap.get_insert] at hb
  split_ifs at hb with hk
  · rw [hk, free] at ha
    cases ha
  · rw [ha] at hb
    cases hb
    exact ⟨.stay a, rfl⟩

theorem CommitsOnly.advancesEntries (h : CommitsOnly s s') : AdvancesEntries s s' ∧ KeepsIds s s' := by
  refine advances_keepsIds_of_entries fun k a b ha hb => ?_
  rcases h.entry k with same | ⟨hash, id, r, n, was, now⟩
  · rw [same, ha] at hb
    cases hb
    exact ⟨.stay a, rfl⟩
  · rw [was] at ha
    rw [now] at hb
    cases ha
    cases hb
    exact ⟨.commit hash id r n, rfl⟩

theorem NotifiersTaken.advancesEntries (h : NotifiersTaken s s') :
    AdvancesEntries s s' ∧ KeepsIds s s' := by
  refine advances_keepsIds_of_entries fun k a b ha hb => ?_
  rcases h.entry k with same | ⟨hash, r, id, n, was, now⟩
  · rw [same, ha] at hb
    cases hb
    exact ⟨.stay a, rfl⟩
  · rw [was] at ha
    rw [now] at hb
    cases ha
    cases hb
    exact ⟨.takeNotifier hash r id n, rfl⟩

theorem advances_suffixRewrite {c : Prop} [Decidable c] (a : BlockState VS) (r : StateComputeResult VS)
    (ordered : c → a.isOrdered = true) :
    Advances a (if c then .computed a.getBlockId r else a) ∧
      (if c then BlockState.computed a.getBlockId r else a).getBlockId = a.getBlockId := by
  split_ifs with hc
  · cases a with
    | ordered block parentId round => exact ⟨.compute block parentId round _ _, rfl⟩
    | _ => exact absurd (ordered hc) (by simp [BlockState.isOrdered])
  · exact ⟨.stay a, rfl⟩

/-- The suffix rewrite only turns `Ordered` entries into `Computed` ones with
the same id. -/
theorem handleEpochChangeSuffixBlocks_advances (s : BlockStateMachine VS) (n epoch : Nat)
    (blockId : BlockId) (ts round : Nat) (hash : HashValue) (es : EpochState VS) :
    AdvancesEntries s (handleEpochChangeSuffixBlocks g s n epoch blockId ts round hash es) ∧
      KeepsIds s (handleEpochChangeSuffixBlocks g s n epoch blockId ts round hash es) := by
  refine advances_keepsIds_of_entries fun k a b ha hb => ?_
  rw [handleEpochChangeSuffixBlocks_get, ha, Option.map_some, Option.some.injEq] at hb
  subst hb
  exact advances_suffixRewrite a _ fun h => h.2.2

theorem setOrderedBlocks_advances {parentId : BlockId} {block : ExternalBlock} {round : Nat}
    (h : s.setOrderedBlocks parentId block round = .ok s') : AdvancesEntries s s' ∧ KeepsIds s s' := by
  rcases setOrderedBlocks_eq_ok h with rfl | ⟨-, -, free, rfl⟩
  · exact ⟨advancesEntries_of_blocks rfl, keepsIds_of_blocks rfl⟩
  · exact advancesEntries_insert_free free rfl

theorem getExecutedRes_advances {blockId : BlockId} {blockNum epoch : Nat} {r : StateComputeResult VS}
    (h : s.getExecutedRes g blockId blockNum epoch = some (.ok (r, s'))) : AdvancesEntries s s' := by
  rcases getExecutedRes_eq_ok h with rfl | ⟨block, parentId, round, cache, stored, -, -, -, rfl⟩
  · exact advancesEntries_of_blocks rfl
  · intro k a b ha hb
    simp only [KeyMap.get_insert] at hb
    split_ifs at hb with hk
    · subst hk
      rw [stored] at ha
      cases ha
      cases hb
      exact .compute block parentId round blockId r
    · rw [ha] at hb
      cases hb
      exact .stay a

theorem setComputeRes_advances {blockId : BlockId} {blockHash : HashValue} {blockNum epoch : Nat}
    {events : List GravityEvent} (h : s.setComputeRes g blockId blockHash blockNum epoch events = .ok s') :
    AdvancesEntries s s' ∧ KeepsIds s s' := by
  obtain ⟨block, parentId, round, stored, same, effect⟩ := setComputeRes_eq_ok h
  -- the computed block replaces its own `Ordered` entry, under the same id
  have computed : ∀ (r : StateComputeResult VS) k a b, s.blocks.get k = some a →
      (s.blocks.insert ⟨epoch, blockNum⟩ (.computed blockId r)).get k = some b →
      Advances a b ∧ b.getBlockId = a.getBlockId := by
    intro r k a b ha hb
    rw [KeyMap.get_insert] at hb
    split_ifs at hb with hk
    · subst hk
      rw [stored] at ha
      cases ha
      cases hb
      exact ⟨.compute block parentId round _ _, same.symm⟩
    · rw [ha] at hb
      cases hb
      exact ⟨.stay a, rfl⟩
  rcases effect with ⟨-, rfl⟩ | ⟨newEpoch, bytes, vs, -, -, rfl⟩
  · exact advances_keepsIds_of_entries (computed _)
  · refine advances_keepsIds_of_entries fun k a b ha hb => ?_
    rw [handleEpochChangeSuffixBlocks_get] at hb
    obtain ⟨a', ha', rfl⟩ := Option.map_eq_some_iff.mp hb
    by_cases hk : k = ⟨epoch, blockNum⟩
    · -- the computed entry is no longer `Ordered`, so the suffix rewrite keeps it
      subst hk
      have inserted := ha'
      simp only [KeyMap.get_insert_self, Option.some.injEq] at inserted
      subst inserted
      simp only [BlockState.isOrdered, Bool.false_eq_true, and_false, if_false]
      exact computed _ _ a _ ha ha'
    · rw [KeyMap.get_insert, if_neg hk, ha] at ha'
      cases ha'
      exact advances_suffixRewrite a _ fun h => h.2.2

end BlockStateMachine


namespace BlockBufferManager

open BlockStateMachine

variable {g : Gaptos VS} {maxBlockSize : Nat} {m m' : BlockBufferManager VS} {reply : Reply VS}

/-- Every call of a running manager moves each entry it keeps at most one stage
forward along `Ordered → Computed → Committed`. -/
theorem step_advances (c : Call) (running : c.IsRunning)
    (h : step g maxBlockSize m c = some (m', reply)) :
    AdvancesEntries m.blockStateMachine m'.blockStateMachine := by
  cases step_effect c h with
  | unchanged => exact advancesEntries_of_blocks rfl
  | init => exact running.elim
  | initEpoch => exact running.elim
  | setOrderedBlocks _ ok => exact (setOrderedBlocks_advances ok).1
  | getExecutedRes _ found => exact getExecutedRes_advances found
  | setComputeRes _ ok => exact (setComputeRes_advances ok).1
  | setCommitBlocks => exact (setCommitBlocksLoop_commitsOnly _ _ _ _).advancesEntries.1
  | getCommittedBlocks _ found => exact (getCommittedBlocks_notifiersTaken found).advancesEntries.1
  | setState => exact advancesEntries_of_blocks rfl
  | releaseInflightBlocks =>
      unfold releaseInflightBlocks
      split_ifs
      · exact advancesEntries_retain
          (fun key => decide (key.blockNumber ≤ m.blockStateMachine.latestEpochChangeBlockNumber)) rfl
      · exact advancesEntries_of_blocks rfl
  | consumeEpochChange => exact advancesEntries_of_blocks rfl
  | removeCommittedBlocks =>
      unfold removeCommittedBlocks
      split_ifs
      · exact advancesEntries_of_blocks rfl
      · exact advancesEntries_retain
          (fun key => decide (key.blockNumber ≥ m.blockStateMachine.latestFinalizedBlockNumber)) rfl

/-- Every call of a running manager keeps the id of each entry it keeps, except
the suffix branch of `get_executed_res`, which stores the id its caller passed. -/
theorem step_blockId (c : Call) (running : c.IsRunning)
    (h : step g maxBlockSize m c = some (m', reply)) {k : BlockKey} {a b : BlockState VS}
    (ha : m.blockStateMachine.blocks.get k = some a) (hb : m'.blockStateMachine.blocks.get k = some b) :
    b.getBlockId = a.getBlockId ∨
      ∃ blockId blockNum epoch r, c = .getExecutedRes blockId blockNum epoch ∧
        k = ⟨epoch, blockNum⟩ ∧ b = .computed blockId r := by
  cases step_effect c h with
  | unchanged => exact Or.inl (keepsIds_of_blocks rfl k a b ha hb)
  | init => exact running.elim
  | initEpoch => exact running.elim
  | setOrderedBlocks _ ok => exact Or.inl ((setOrderedBlocks_advances ok).2 k a b ha hb)
  | @getExecutedRes _ s' blockId blockNum epoch r _ found =>
      rcases getExecutedRes_eq_ok found with same | ⟨-, -, -, -, -, -, -, -, rfl⟩
      · exact Or.inl (keepsIds_of_blocks (by rw [withMachine_blockStateMachine, same]) k a b ha hb)
      · simp only [withMachine_blockStateMachine, KeyMap.get_insert] at hb
        split_ifs at hb with hk
        · cases hb
          exact Or.inr ⟨blockId, blockNum, epoch, r, rfl, hk, rfl⟩
        · rw [ha] at hb
          cases hb
          exact Or.inl rfl
  | setComputeRes _ ok => exact Or.inl ((setComputeRes_advances ok).2 k a b ha hb)
  | setCommitBlocks =>
      exact Or.inl ((setCommitBlocksLoop_commitsOnly _ _ _ _).advancesEntries.2 k a b ha hb)
  | getCommittedBlocks _ found =>
      exact Or.inl ((getCommittedBlocks_notifiersTaken found).advancesEntries.2 k a b ha hb)
  | setState => exact Or.inl (keepsIds_of_blocks rfl k a b ha hb)
  | releaseInflightBlocks =>
      unfold releaseInflightBlocks at hb
      split_ifs at hb
      · exact Or.inl (keepsIds_retain
          (fun key => decide (key.blockNumber ≤ m.blockStateMachine.latestEpochChangeBlockNumber)) rfl
          k a b ha hb)
      · exact Or.inl (keepsIds_of_blocks rfl k a b ha hb)
  | consumeEpochChange => exact Or.inl (keepsIds_of_blocks rfl k a b ha hb)
  | removeCommittedBlocks =>
      simp only [withMachine_blockStateMachine, removeCommittedBlocks] at hb
      split_ifs at hb
      · exact Or.inl (keepsIds_of_blocks rfl k a b ha hb)
      · exact Or.inl (keepsIds_retain
          (fun key => decide (key.blockNumber ≥ m.blockStateMachine.latestFinalizedBlockNumber)) rfl
          k a b ha hb)

/-- After an epoch change at block 1, block 2 of the same epoch is ordered with
id 12; a `get_executed_res` for block 2 under id 99 replaces it by a `Computed`
entry with id 99. -/
theorem getExecutedRes_stores_unchecked_block_id :
    let g : Gaptos Unit := ⟨fun _ => .ok (), 0⟩
    let calls : List Call :=
      [.init 0 KeyMap.empty 1, .setOrderedBlocks 10 ⟨11, 1, 100, 1, 0⟩ 5,
        .setComputeRes 11 111 1 1 [.newEpoch 2 []], .setOrderedBlocks 11 ⟨12, 2, 200, 1, 0⟩ 6]
    (run (step g 256) new calls).map (fun p => p.1.blockStateMachine.blocks.get ⟨1, 2⟩) =
        some (some (.ordered ⟨12, 2, 200, 1, 0⟩ 11 6)) ∧
      (run (step g 256) new (calls ++ [.getExecutedRes 99 2 1])).map
          (fun p => (p.1.blockStateMachine.blocks.get ⟨1, 2⟩).map BlockState.getBlockId) =
        some (some 99) := by
  decide

end BlockBufferManager

end GravitySdk.BlockBuffer
