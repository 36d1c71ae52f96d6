/- The ordered-block feed of the buffer manager.
   digest: A pass of get_ordered_blocks that returns hands out the maximal run
   of Ordered blocks of its epoch from the start number, at most max_size of
   them, and only while no epoch change waits. Along every run in which
   consensus orders the blocks of each epoch by non-decreasing number, every
   Ordered block records as parent the id of the Ordered block one number
   below it, so the blocks of a returned run are linked one to the next. -/

import GravitySdk.BlockBuffer.Spec

/-!
The linkage rests on where `Ordered` entries come from: only a
`set_ordered_blocks` that finds its block's key free creates one, with the
parent that `actual_parent_id` reads from the key one number below, and every
other call keeps an `Ordered` entry as it is or takes it away
(`step_ordered`). A key below an `Ordered` entry that is filled later would
need a call that orders a block of the same epoch below an earlier one, which
the contract on the run excludes.
-/

set_option autoImplicit false
set_option relaxedAutoImplicit false

namespace GravitySdk.BlockBuffer

open GravitySdk.Lib GravitySdk.Lib.Transition

variable {VS : Type}

/-- `c` and then `c'` do not order a block of one epoch below a block of
that epoch ordered earlier. -/
def Call.OrdersForward : Call → Call → Prop
  | .setOrderedBlocks _ block _, .setOrderedBlocks _ block' _ =>
      block.epoch = block'.epoch → block.blockNumber ≤ block'.blockNumber
  | _, _ => True

namespace BlockStateMachine

variable {g : Gaptos VS} {s s' : BlockStateMachine VS}

/-! ### One pass of get_ordered_blocks -/

/-- `got` lists the `Ordered` blocks, with their recorded parents, at
`(epoch, n), (epoch, n + 1), ...`. -/
def HoldsRun (blocks : KeyMap BlockKey (BlockState VS)) (epoch n : Nat)
    (got : List (ExternalBlock × BlockId)) : Prop :=
  ∀ i (h : i < got.length), ∃ round, blocks.get ⟨epoch, n + i⟩ = some (.ordered got[i].1 got[i].2 round)

theorem holdsRun_nil (blocks : KeyMap BlockKey (BlockState VS)) (epoch n : Nat) :
    HoldsRun blocks epoch n [] := by
  intro i h
  cases h

theorem HoldsRun.cons {blocks : KeyMap BlockKey (BlockState VS)} {epoch n : Nat} {block : ExternalBlock}
    {parentId : BlockId} {round : Nat} {got : List (ExternalBlock × BlockId)}
    (stored : blocks.get ⟨epoch, n⟩ = some (.ordered block parentId round))
    (rest : HoldsRun blocks epoch (n + 1) got) : HoldsRun blocks epoch n ((block, parentId) :: got) := by
  intro i h
  cases i with
  | zero => exact ⟨round, stored⟩
  | succ i =>
      obtain ⟨round', later⟩ := rest i (by simpa using h)
      refine ⟨round', ?_⟩
      rw [List.getElem_cons_succ, show n + (i + 1) = n + 1 + i by omega]
      exact later

theorem collectOrdered_spec (blocks : KeyMap BlockKey (BlockState VS)) (epoch maxSize n : Nat)
    (acc : List (ExternalBlock × BlockId)) (fuel : Nat) (below : acc.length < maxSize)
    (enough : maxSize ≤ acc.length + fuel + 1) :
    ∃ got, collectOrdered blocks epoch maxSize n acc fuel = acc ++ got ∧ HoldsRun blocks epoch n got ∧
      acc.length + got.length ≤ maxSize ∧
      (acc.length + got.length = maxSize ∨
        ∀ block parentId round, blocks.get ⟨epoch, n + got.length⟩ ≠ some (.ordered block parentId round)) := by
  fun_induction collectOrdered blocks epoch maxSize n acc fuel with
  | case1 fuel n acc block parentId round stored acc' full =>
      -- the push reached the limit
      have length : acc'.length = acc.length + 1 := by simp [acc']
      refine ⟨[(block, parentId)], rfl, (holdsRun_nil blocks epoch (n + 1)).cons stored, ?_, ?_⟩
      · simp only [List.length_singleton]
        omega
      · left
        simp only [List.length_singleton]
        omega
  | case2 n acc block parentId round stored acc' room =>
      -- out of fuel below the limit: excluded by the fuel given
      have length : acc'.length = acc.length + 1 := by simp [acc']
      omega
  | case3 n acc block parentId round stored acc' room fuel ih =>
      have length : acc'.length = acc.length + 1 := by simp [acc']
      obtain ⟨got, collected, holds, bounded, ends⟩ := ih (by omega) (by omega)
      refine ⟨(block, parentId) :: got, ?_, holds.cons stored, ?_, ?_⟩
      · rw [collected]
        simp [acc']
      · simp only [List.length_cons]
        omega
      · simp only [List.length_cons]
        rcases ends with full | stops
        · left
          omega
        · right
          intro block' parentId' round'
          rw [show n + (got.length + 1) = n + 1 + got.length by omega]
          exact stops block' parentId' round'
  | case4 fuel n acc notOrdered =>
      refine ⟨[], by simp, holdsRun_nil blocks epoch n, by simp; omega, Or.inr ?_⟩
      intro block parentId round stored
      exact notOrdered block parentId round (by simpa using stored)

/-- What a batch returned by `get_ordered_blocks start_num max_size expected_epoch`
is: the `Ordered` blocks at `(expected_epoch, start_num), ...`, none missing
from the start, at most `max_size` of them, ended by the limit or by the first
key that holds no `Ordered` block, and handed out only outside an epoch
change. -/
structure OrderedRun (s : BlockStateMachine VS) (startNum : Nat) (maxSize : Option Nat)
    (expectedEpoch : Nat) (v : List (ExternalBlock × BlockId)) : Prop where
  nonempty : v ≠ []
  ordered : HoldsRun s.blocks expectedEpoch startNum v
  withinMax : v.length ≤ maxSize.getD usizeMax
  maximal : v.length = maxSize.getD usizeMax ∨
    ∀ block parentId round,
      s.blocks.get ⟨expectedEpoch, startNum + v.length⟩ ≠ some (.ordered block parentId round)
  inEpoch : s.epochChangeReady = false ∧ s.currentEpoch = expectedEpoch

theorem getOrderedBlocks_eq_ok {startNum : Nat} {maxSize : Option Nat} {expectedEpoch : Nat}
    {v : List (ExternalBlock × BlockId)} (sized : 0 < maxSize.getD usizeMax)
    (h : s.getOrderedBlocks startNum maxSize expectedEpoch = some (.ok v)) :
    OrderedRun s startNum maxSize expectedEpoch v := by
  simp only [getOrderedBlocks] at h
  split_ifs at h with waiting
  · simp at h
  obtain ⟨got, collected, holds, bounded, ends⟩ :=
    collectOrdered_spec s.blocks expectedEpoch (maxSize.getD usizeMax) startNum [] (maxSize.getD usizeMax)
      sized (by simp)
  rw [collected, List.nil_append] at h
  simp only [List.length_nil, Nat.zero_add] at bounded ends
  cases got with
  | nil => cases h
  | cons first rest =>
      simp only [Option.some.injEq, Except.ok.injEq] at h
      subst h
      have inEpoch : s.epochChangeReady = false ∧ s.currentEpoch = expectedEpoch := by
        simpa using waiting
      exact ⟨List.cons_ne_nil _ _, holds, bounded, ends, inEpoch⟩

/-! ### Where Ordered entries come from -/

/-- Every `Ordered` entry of `s'` is the same entry of `s`. -/
def OrderedKept (s s' : BlockStateMachine VS) : Prop :=
  ∀ block parentId round, EntriesFrom (· = BlockState.ordered block parentId round) s s'

theorem orderedKept_of_blocks (h : s'.blocks = s.blocks) : OrderedKept s s' :=
  fun _ _ _ => entriesFrom_of_blocks h

theorem orderedKept_retain (p : BlockKey → Bool) (h : s'.blocks = s.blocks.retain p) : OrderedKept s s' :=
  fun _ _ _ => entriesFrom_retain p h

theorem orderedKept_insert {k₀ : BlockKey} {v : BlockState VS} (notOrdered : v.isOrdered = false)
    (h : s'.blocks = s.blocks.insert k₀ v) : OrderedKept s s' := by
  intro block parentId round
  refine entriesFrom_insert (fun isOrdered => ?_) h
  rw [isOrdered] at notOrdered
  cases notOrdered

theorem OrderedKept.trans {s₁ s₂ s₃ : BlockStateMachine VS} (h₁ : OrderedKept s₁ s₂) (h₂ : OrderedKept s₂ s₃) :
    OrderedKept s₁ s₃ := by
  intro block parentId round k st stored isOrdered
  obtain ⟨st₂, stored₂, isOrdered₂⟩ := h₂ block parentId round k st stored isOrdered
  exact h₁ block parentId round k st₂ stored₂ isOrdered₂

theorem orderedKept_handleEpochChangeSuffixBlocks (n epoch : Nat) (blockId : BlockId) (ts round : Nat)
    (hash : HashValue) (es : EpochState VS) :
    OrderedKept s (handleEpochChangeSuffixBlocks g s n epoch blockId ts round hash es) := by
  intro block parentId round' k st' stored isOrdered
  rw [handleEpochChangeSuffixBlocks_get] at stored
  obtain ⟨st, was, rewritten⟩ := Option.map_eq_some_iff.mp stored
  refine ⟨st, was, ?_⟩
  split_ifs at rewritten
  · rw [isOrdered] at rewritten
    cases rewritten
  · rw [rewritten, isOrdered]

theorem setComputeRes_orderedKept {blockId : BlockId} {blockHash : HashValue} {blockNum epoch : Nat}
    {events : List GravityEvent} (h : s.setComputeRes g blockId blockHash blockNum epoch events = .ok s') :
    OrderedKept s s' := by
  obtain ⟨block, parentId, round, -, -, plain | ⟨newEpoch, bytes, vs, -, -, rfl⟩⟩ := setComputeRes_eq_ok h
  · obtain ⟨-, rfl⟩ := plain
    exact orderedKept_insert rfl rfl
  · exact (orderedKept_insert rfl rfl).trans (orderedKept_handleEpochChangeSuffixBlocks _ _ _ _ _ _ _)

theorem getExecutedRes_orderedKept {blockId : BlockId} {blockNum epoch : Nat} {r : StateComputeResult VS}
    (h : s.getExecutedRes g blockId blockNum epoch = some (.ok (r, s'))) : OrderedKept s s' := by
  rcases getExecutedRes_eq_ok h with rfl | ⟨-, -, -, -, -, -, -, -, rfl⟩
  · exact orderedKept_of_blocks rfl
  · exact orderedKept_insert rfl rfl

/-! ### Linked entries -/

/-- An `Ordered` entry at `(e, n + 1)` records as parent the id of the
`Ordered` entry at `(e, n)`. -/
def Linked (s : BlockStateMachine VS) : Prop :=
  ∀ e n block parentId round block' parentId' round',
    s.blocks.get ⟨e, n + 1⟩ = some (.ordered block parentId round) →
    s.blocks.get ⟨e, n⟩ = some (.ordered block' parentId' round') → parentId = block'.blockId

/-- Every `Ordered` entry sits at its block's own key and holds a block that
one of `calls` ordered, in the call's round. -/
def OrderedByCalls (s : BlockStateMachine VS) (calls : List Call) : Prop :=
  ∀ k block parentId round, s.blocks.get k = some (.ordered block parentId round) →
    k = ⟨block.epoch, block.blockNumber⟩ ∧ ∃ consensusParent, Call.setOrderedBlocks consensusParent block round ∈ calls

theorem actualParentId_of_get {block : ExternalBlock} {n : Nat} {st : BlockState VS}
    (number : block.blockNumber = n + 1) (stored : s.blocks.get ⟨block.epoch, n⟩ = some st)
    (consensusParent : BlockId) : s.actualParentId block consensusParent = st.getBlockId := by
  simp only [actualParentId, number, stored]

theorem OrderedKept.linked (kept : OrderedKept s s') (linked : Linked s) : Linked s' := by
  intro e n block parentId round block' parentId' round' upper lower
  obtain ⟨_, upperWas, rfl⟩ := kept block parentId round _ _ upper rfl
  obtain ⟨_, lowerWas, rfl⟩ := kept block' parentId' round' _ _ lower rfl
  exact linked e n block parentId round block' parentId' round' upperWas lowerWas

theorem OrderedKept.orderedByCalls {calls : List Call} (kept : OrderedKept s s')
    (byCalls : OrderedByCalls s calls) (c : Call) : OrderedByCalls s' (calls ++ [c]) := by
  intro k block parentId round stored
  obtain ⟨_, was, rfl⟩ := kept block parentId round _ _ stored rfl
  obtain ⟨atKey, consensusParent, called⟩ := byCalls k block parentId round was
  exact ⟨atKey, consensusParent, List.mem_append_left _ called⟩

section Insert

variable {calls : List Call} {consensusParent : BlockId} {block : ExternalBlock} {round : Nat}

theorem orderedByCalls_insert (byCalls : OrderedByCalls s calls)
    (inserted : s'.blocks = s.blocks.insert ⟨block.epoch, block.blockNumber⟩
      (.ordered block (s.actualParentId block consensusParent) round)) :
    OrderedByCalls s' (calls ++ [.setOrderedBlocks consensusParent block round]) := by
  intro k block' parentId' round' stored
  rw [inserted, KeyMap.get_insert] at stored
  split_ifs at stored with atKey
  · cases stored
    exact ⟨atKey, consensusParent, by simp⟩
  · obtain ⟨sameKey, consensusParent', called⟩ := byCalls k block' parentId' round' stored
    exact ⟨sameKey, consensusParent', List.mem_append_left _ called⟩

theorem linked_insert (linked : Linked s) (byCalls : OrderedByCalls s calls)
    (forward : ∀ c ∈ calls, c.OrdersForward (.setOrderedBlocks consensusParent block round))
    (inserted : s'.blocks = s.blocks.insert ⟨block.epoch, block.blockNumber⟩
      (.ordered block (s.actualParentId block consensusParent) round)) : Linked s' := by
  intro e n upper parentId upperRound lower lowerParent lowerRound upperStored lowerStored
  rw [inserted, KeyMap.get_insert] at upperStored lowerStored
  split_ifs at upperStored lowerStored with upperNew lowerNew lowerNew
  · -- one key cannot be both `n + 1` and `n`
    simp only [BlockKey.mk.injEq] at upperNew lowerNew
    omega
  · -- the new block at `n + 1` reads its parent from the entry at `n`
    cases upperStored
    simp only [BlockKey.mk.injEq] at upperNew
    obtain ⟨rfl, number⟩ := upperNew
    rw [actualParentId_of_get number.symm lowerStored consensusParent]
    rfl
  · -- the new block at `n` would lie below an entry an earlier call ordered
    cases lowerStored
    simp only [BlockKey.mk.injEq] at lowerNew
    obtain ⟨rfl, number⟩ := lowerNew
    obtain ⟨atKey, consensusParent', called⟩ := byCalls _ upper parentId upperRound upperStored
    simp only [BlockKey.mk.injEq] at atKey
    have below := forward _ called atKey.1.symm
    omega
  · exact linked e n upper parentId upperRound lower lowerParent lowerRound upperStored lowerStored

end Insert

end BlockStateMachine

namespace BlockBufferManager

open BlockStateMachine

variable {g : Gaptos VS} {maxBlockSize : Nat} {m m' : BlockBufferManager VS} {reply : Reply VS}

theorem step_ordered (c : Call) (h : step g maxBlockSize m c = some (m', reply)) :
    OrderedKept m.blockStateMachine m'.blockStateMachine ∨
      ∃ consensusParent block round, c = .setOrderedBlocks consensusParent block round ∧
        m.blockStateMachine.blocks.get ⟨block.epoch, block.blockNumber⟩ = none ∧
        m'.blockStateMachine.blocks = m.blockStateMachine.blocks.insert ⟨block.epoch, block.blockNumber⟩
          (.ordered block (m.blockStateMachine.actualParentId block consensusParent) round) := by
  cases step_effect c h with
  | unchanged => exact .inl (orderedKept_of_blocks rfl)
  | init ok =>
      -- `init` may record the commit block, as `Historical`
      rcases (init_eq_ok ok).2 with same | ⟨commitBlockEpoch, commitBlockId, same⟩
      · exact .inl (orderedKept_of_blocks (by rw [same]))
      · exact .inl (orderedKept_insert rfl (by rw [same]))
  | initEpoch => exact .inl (orderedKept_of_blocks rfl)
  | setOrderedBlocks _ ok =>
      rcases setOrderedBlocks_eq_ok ok with same | ⟨-, -, free, inserted⟩
      · exact .inl (orderedKept_of_blocks (by rw [withMachine_blockStateMachine, same]))
      · exact .inr ⟨_, _, _, rfl, free, by rw [withMachine_blockStateMachine, inserted]⟩
  | getExecutedRes _ found => exact .inl (getExecutedRes_orderedKept found)
  | setComputeRes _ ok => exact .inl (setComputeRes_orderedKept ok)
  | setCommitBlocks =>
      exact .inl fun _ _ _ =>
        (setCommitBlocksLoop_commitsOnly _ _ _ _).entriesFrom fun _ _ _ _ committed => by cases committed
  | getCommittedBlocks _ found =>
      exact .inl fun _ _ _ =>
        (getCommittedBlocks_notifiersTaken found).entriesFrom fun _ _ _ _ committed => by cases committed
  | setState => exact .inl (orderedKept_of_blocks rfl)
  | releaseInflightBlocks =>
      unfold releaseInflightBlocks
      split_ifs
      · exact .inl (orderedKept_retain
          (fun key => decide (key.blockNumber ≤ m.blockStateMachine.latestEpochChangeBlockNumber)) rfl)
      · exact .inl (orderedKept_of_blocks rfl)
  | consumeEpochChange => exact .inl (orderedKept_of_blocks rfl)
  | removeCommittedBlocks =>
      simp only [withMachine_blockStateMachine, removeCommittedBlocks]
      split_ifs
      · exact .inl (orderedKept_of_blocks rfl)
      · exact .inl (orderedKept_retain
          (fun key => decide (key.blockNumber ≥ m.blockStateMachine.latestFinalizedBlockNumber)) rfl)

theorem step_getOrderedBlocks {startNum : Nat} {maxSize : Option Nat} {expectedEpoch : Nat}
    {v : List (ExternalBlock × BlockId)}
    (h : step g maxBlockSize m (.getOrderedBlocks startNum maxSize expectedEpoch) = some (m', .orderedBlocks v)) :
    m' = m ∧ m.blockStateMachine.getOrderedBlocks startNum maxSize expectedEpoch = some (.ok v) := by
  simp only [step] at h
  split_ifs at h
  obtain ⟨result, found, replied⟩ := Option.map_eq_some_iff.mp h
  cases result with
  | ok blocks =>
      simp only [Prod.mk.injEq, Reply.orderedBlocks.injEq] at replied
      obtain ⟨rfl, rfl⟩ := replied
      exact ⟨rfl, found⟩
  | error e => simp at replied

/-! ### Whole runs -/

theorem linked_of_trace {evs : List (Call × Reply VS)}
    (run : Trace (step g maxBlockSize) (fun _ _ => True) new evs m)
    (forward : (evs.map Prod.fst).Pairwise Call.OrdersForward) :
    Linked m.blockStateMachine ∧ OrderedByCalls m.blockStateMachine (evs.map Prod.fst) := by
  refine Trace.invariant (fun m evs => (evs.map Prod.fst).Pairwise Call.OrdersForward →
      Linked m.blockStateMachine ∧ OrderedByCalls m.blockStateMachine (evs.map Prod.fst))
    ?_ ?_ run forward
  · -- a new manager stores nothing
    intro _
    constructor
    · intro e n block parentId round block' parentId' round' upper
      cases upper
    · intro k block parentId round stored
      cases stored
  · intro t evs c r t' ih _ stepped forward'
    rw [List.map_append, List.pairwise_append] at forward'
    obtain ⟨earlier, -, across⟩ := forward'
    obtain ⟨linked, byCalls⟩ := ih earlier
    rw [List.map_append]
    rcases step_ordered c stepped with kept | ⟨consensusParent, block, round, rfl, -, inserted⟩
    · exact ⟨kept.linked linked, kept.orderedByCalls byCalls c⟩
    · exact ⟨linked_insert linked byCalls (fun c' called => across c' called _ (by simp)) inserted,
        orderedByCalls_insert byCalls inserted⟩

/-- The ordered-block feed.  In every state that a run from
`BlockBufferManager::new` reaches, a `get_ordered_blocks` with no limit or a
limit of at least one that replies with blocks hands out an `OrderedRun`; and
when the run's calls order the blocks of each epoch by non-decreasing number,
every block of the batch after the first comes with the id of the block before
it as its parent. -/
theorem getOrderedBlocks_returns_linked_run {evs : List (Call × Reply VS)}
    (run : Trace (step g maxBlockSize) (fun _ _ => True) new evs m)
    {startNum : Nat} {maxSize : Option Nat} {expectedEpoch : Nat} {v : List (ExternalBlock × BlockId)}
    (sized : ∀ limit, maxSize = some limit → 1 ≤ limit)
    (returned : step g maxBlockSize m (.getOrderedBlocks startNum maxSize expectedEpoch) =
      some (m', .orderedBlocks v)) :
    OrderedRun m.blockStateMachine startNum maxSize expectedEpoch v ∧
      ((evs.map Prod.fst).Pairwise Call.OrdersForward →
        ∀ i (h : i + 1 < v.length), v[i + 1].2 = v[i].1.blockId) := by
  obtain ⟨-, found⟩ := step_getOrderedBlocks returned
  have limited : 0 < maxSize.getD usizeMax := by
    cases maxSize with
    | none => decide
    | some limit => exact sized limit rfl
  have feed := getOrderedBlocks_eq_ok limited found
  refine ⟨feed, fun forward i h => ?_⟩
  obtain ⟨linked, -⟩ := linked_of_trace run forward
  obtain ⟨_, upper⟩ := feed.ordered (i + 1) h
  obtain ⟨_, lower⟩ := feed.ordered i (by omega)
  exact linked expectedEpoch (startNum + i) _ _ _ _ _ _ upper lower

/-- Where `set_state` reports a finalized number above the committed one,
which its callers never do, the first block of a new epoch may miss the link
to the epoch-change block.  After the change at block 1 of epoch 0,
`set_state 1 2` and `remove_committed_blocks` (with `max_block_size = 1`) drop
block 1; block 2 of epoch 1 is then ordered, and handed out, with the parent
id consensus passed, 99, and not with block 1's id 11. -/
example :
    let g : Gaptos Unit := ⟨fun _ => .ok (), 0⟩
    let calls : List Call :=
      [.init 0 KeyMap.empty 0, .setOrderedBlocks 0 ⟨11, 1, 100, 0, 0⟩ 1,
        .setComputeRes 11 111 1 0 [.newEpoch 1 []], .releaseInflightBlocks, .consumeEpochChange,
        .setState 1 2, .removeCommittedBlocks, .setOrderedBlocks 99 ⟨12, 2, 200, 1, 0⟩ 2,
        .getOrderedBlocks 2 (some 5) 1]
    calls.Pairwise Call.OrdersForward ∧
      (run (step g 1) new calls).map (fun p => p.2.getLast?) =
        some (some (.orderedBlocks [(⟨12, 2, 200, 1, 0⟩, 99)])) := by
  intro g calls
  refine ⟨?_, by decide +kernel⟩
  simp [calls, Call.OrdersForward]

/-- Without the pruning, the same block comes with block 1's id. -/
example :
    let g : Gaptos Unit := ⟨fun _ => .ok (), 0⟩
    let calls : List Call :=
      [.init 0 KeyMap.empty 0, .setOrderedBlocks 0 ⟨11, 1, 100, 0, 0⟩ 1,
        .setComputeRes 11 111 1 0 [.newEpoch 1 []], .releaseInflightBlocks, .consumeEpochChange,
        .setOrderedBlocks 99 ⟨12, 2, 200, 1, 0⟩ 2, .getOrderedBlocks 2 (some 5) 1]
    (run (step g 1) new calls).map (fun p => p.2.getLast?) =
      some (some (.orderedBlocks [(⟨12, 2, 200, 1, 0⟩, 11)])) := by
  decide +kernel

end BlockBufferManager

end GravitySdk.BlockBuffer
