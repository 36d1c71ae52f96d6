/- Runs of the buffer manager's main loop.
   digest: Over every run of the loop whose ordered batches end in a block the
   buffer does not hold, the blocks the persisting requests carry since the
   last reset, followed by the blocks still in the buffer, are exactly the
   ordered blocks since then, in order: none is lost, repeated or reordered;
   and every persisting request carries a commit proof of its last block. -/

import Mathlib
import GravitySdk.Pipeline.MainLoop
import GravitySdk.Consensus.IdealVerifier

set_option autoImplicit false
set_option relaxedAutoImplicit false

namespace GravitySdk.Pipeline

open GravitySdk.Lib GravitySdk.Lib.Chain GravitySdk.Lib.Transition GravitySdk.Consensus

open Buffer (keysOf replaceAt)

/-! ### The buffer at rest -/

/-- The entries of a buffer whose every item is in place. -/
def filled (items : List (HashValue × BufferItem)) : List (HashValue × Option BufferItem) :=
  items.map fun e => (e.1, some e.2)

/-- The ids of the blocks of the items, in order. -/
def heldIds (items : List (HashValue × BufferItem)) : List HashValue :=
  items.flatMap fun e => e.2.getBlocks.map (·.id)

/-- The buffer between two events: it holds `items` in order, each under the
id of its last block, and every item commits its last block. -/
structure Stored (b : Buffer BufferItem) (items : List (HashValue × BufferItem)) : Prop where
  holds : b.Holds (filled items)
  keyed : ∀ e ∈ items, e.2.blockId = some e.1
  commitsLast : ∀ e ∈ items, e.2.CommitsLast

@[simp] theorem filled_nil : filled [] = [] := rfl

@[simp] theorem filled_append (l l' : List (HashValue × BufferItem)) : filled (l ++ l') = filled l ++ filled l' :=
  List.map_append

@[simp] theorem filled_cons (e : HashValue × BufferItem) (l : List (HashValue × BufferItem)) :
    filled (e :: l) = (e.1, some e.2) :: filled l := rfl

@[simp] theorem keysOf_filled (items : List (HashValue × BufferItem)) : keysOf (filled items) = items.map Prod.fst := by
  simp [keysOf, filled]

@[simp] theorem heldIds_nil : heldIds [] = [] := rfl

@[simp] theorem heldIds_append (l l' : List (HashValue × BufferItem)) : heldIds (l ++ l') = heldIds l ++ heldIds l' :=
  List.flatMap_append

@[simp] theorem heldIds_cons (e : HashValue × BufferItem) (l : List (HashValue × BufferItem)) :
    heldIds (e :: l) = e.2.getBlocks.map (·.id) ++ heldIds l := rfl

section Stored

variable {b b' : Buffer BufferItem} {items : List (HashValue × BufferItem)}

theorem stored_new : Stored Buffer.new [] := ⟨Buffer.holds_new, by simp, by simp⟩

theorem Stored.mem_of_get (h : Stored b items) {k : HashValue} {item : LinkedItem BufferItem} {e : BufferItem}
    (stored : b.map.get k = some item) (present : item.elem = some e) : (k, e) ∈ items := by
  have known : k ∈ keysOf (filled items) := h.holds.onlyEntries k (by simp [stored])
  obtain ⟨item', stored', mem⟩ := h.holds.get_of_key known
  rw [stored, Option.some.injEq] at stored'
  subst stored'
  rw [present] at mem
  simpa [filled] using mem

theorem Stored.split_of_mem (h : Stored b items) {k : HashValue} {e : BufferItem} (mem : (k, e) ∈ items) :
    ∃ pre post, items = pre ++ (k, e) :: post ∧ k ∉ pre.map Prod.fst ∧ k ∉ post.map Prod.fst := by
  obtain ⟨pre, post, split⟩ := List.append_of_mem mem
  refine ⟨pre, post, split, ?_⟩
  have nodup := h.holds.nodup
  rw [split, keysOf_filled, List.map_append, List.map_cons, List.nodup_append] at nodup
  exact ⟨fun inPre => nodup.2.2 _ inPre _ List.mem_cons_self rfl, (List.nodup_cons.mp nodup.2.1).1⟩

theorem Stored.findElemByKey_eq_some (h : Stored b items) {cursor : Cursor} {key k : HashValue}
    (found : b.findElemByKey cursor key = some k) : k = key ∧ ∃ e, (key, e) ∈ items := by
  cases cursor with
  | none => simp [Buffer.findElemByKey] at found
  | some c =>
      rw [h.holds.findElemByKey_eq] at found
      split_ifs at found with after
      have same : k = key := (Option.some.inj found).symm
      subst same
      refine ⟨rfl, ?_⟩
      have suffix : Buffer.fromKey (filled items) c <:+ filled items := List.dropWhile_suffix _
      have known : k ∈ keysOf (filled items) := by
        unfold keysOf at after ⊢
        exact suffix.sublist.map Prod.fst |>.subset after
      simpa using known

theorem Stored.pushBack (h : Stored b items) {item : BufferItem} {key : HashValue} (hashed : item.blockId = some key)
    (fresh : (b.map.get key).isNone) (commits : item.CommitsLast)
    (pushed : b.pushBack BufferItem.blockId item = some b') : Stored b' (items ++ [(key, item)]) := by
  have absent : key ∉ keysOf (filled items) := fun mem => by
    obtain ⟨stored, found, -⟩ := h.holds.get_of_key mem
    simp [found] at fresh
  obtain ⟨b'', pushed', holds, -⟩ := h.holds.pushBack hashed absent (Buffer.pushBack_fits pushed)
  rw [pushed, Option.some.injEq] at pushed'
  subst pushed'
  refine ⟨by simpa using holds, fun e mem => ?_, fun e mem => ?_⟩
  · rcases List.mem_append.mp mem with old | new
    · exact h.keyed e old
    · rw [List.mem_singleton.mp new]
      exact hashed
  · rcases List.mem_append.mp mem with old | new
    · exact h.commitsLast e old
    · rw [List.mem_singleton.mp new]
      exact commits

theorem Stored.take_set (h : Stored b items) {k : HashValue} {taken : BufferItem × Buffer BufferItem}
    (took : b.take (some k) = some taken) {item' : BufferItem} (keeps : BufferItem.Keeps taken.1 item')
    (set : taken.2.set (some k) item' = some b') :
    ∃ items', Stored b' items' ∧ heldIds items' = heldIds items ∧ b'.get (some k) = some item' := by
  obtain ⟨item, stored, present⟩ : ∃ item, b.map.get k = some item ∧ item.elem = some taken.1 := by
    simp only [Buffer.take, Option.bind_eq_bind, Option.bind_some, Option.bind_eq_some_iff] at took
    obtain ⟨item, stored, e, present, took⟩ := took
    rw [← Option.some.inj took]
    exact ⟨item, stored, present⟩
  have mem := h.mem_of_get stored present
  obtain ⟨pre, post, split, notPre, notPost⟩ := h.split_of_mem mem
  obtain ⟨b₁, took', holds₁, -⟩ := h.holds.take (by simpa [filled] using List.mem_map_of_mem (f := fun e => (e.1, some e.2)) mem)
  rw [took, Option.some.injEq] at took'
  obtain rfl : taken.2 = b₁ := congrArg Prod.snd took'
  obtain ⟨b₂, set', holds₂, -⟩ := holds₁.set (by simpa using List.mem_map_of_mem (f := Prod.fst) mem) item'
  rw [set, Option.some.injEq] at set'
  subst set'
  have entries : replaceAt (replaceAt (filled items) k none) k (some item') = filled (pre ++ (k, item') :: post) := by
    rw [Buffer.replaceAt_replaceAt, split, filled_append, filled_cons, Buffer.replaceAt_append,
      Buffer.replaceAt_of_absent (by simpa using notPre), filled_append, filled_cons]
    simp only [replaceAt, List.map_cons, if_true]
    rw [← replaceAt, Buffer.replaceAt_of_absent (by simpa using notPost)]
  rw [entries] at holds₂
  refine ⟨pre ++ (k, item') :: post, ⟨holds₂, fun e eMem => ?_, fun e eMem => ?_⟩,
    by simp [split, keeps.ids], holds₂.get_eq (by simp)⟩
  · rcases List.mem_append.mp eMem with old | rest
    · exact h.keyed e (split ▸ List.mem_append_left _ old)
    · rcases List.mem_cons.mp rest with rfl | new
      · rw [keeps.blockId_eq]
        exact h.keyed _ mem
      · exact h.keyed e (split ▸ List.mem_append_right _ (List.mem_cons_of_mem _ new))
  · rcases List.mem_append.mp eMem with old | rest
    · exact h.commitsLast e (split ▸ List.mem_append_left _ old)
    · rcases List.mem_cons.mp rest with rfl | new
      · exact keeps.commitsLast (h.commitsLast _ mem)
      · exact h.commitsLast e (split ▸ List.mem_append_right _ (List.mem_cons_of_mem _ new))

end Stored

/-! ### What one event does to the items -/

namespace Output

/-- The ids of the blocks a persisting request carries. -/
def persistedIds : Output → List HashValue
  | .persistingRequest blocks _ => blocks.map (·.id)
  | _ => []

/-- A persisting request carries a commit proof of its last block. -/
def CommitsLast : Output → Prop
  | .persistingRequest blocks commitLedgerInfo => some commitLedgerInfo.commitInfo.id = blocks.getLast?.map (·.id)
  | _ => True

end Output

namespace Event

/-- The ids of the blocks an ordered batch brings. -/
def orderedIds : Event → List HashValue
  | .orderedBlocks blocks _ => blocks.map (·.id)
  | _ => []

def isReset : Event → Bool
  | .reset _ => true
  | _ => false

end Event

/-- The contract on the events: an ordered batch ends in a block the buffer
does not hold, as the key it is pushed under. -/
def FreshBatch (s : PipelineState) : Event → Prop
  | .orderedBlocks orderedBlocks _ => ∀ block ∈ orderedBlocks.getLast?, (s.buffer.map.get block.id).isNone
  | _ => True

/-- Outputs without a persisting request. -/
def Quiet (out : List Output) : Prop := ∀ o ∈ out, ∀ blocks commitLedgerInfo, o ≠ .persistingRequest blocks commitLedgerInfo

/-- What a handler does to the items of the buffer, read off its outputs: the
blocks it persists followed by the items it leaves are the items it found
followed by the blocks it was ordered, and each persisting request commits its
last block. -/
structure Accounts (items : List (HashValue × BufferItem)) (ordered : List HashValue) (out : List Output)
    (items' : List (HashValue × BufferItem)) : Prop where
  flow : out.flatMap Output.persistedIds ++ heldIds items' = heldIds items ++ ordered
  commits : ∀ o ∈ out, o.CommitsLast

section Accounts

variable {items items' items'' : List (HashValue × BufferItem)} {ordered : List HashValue} {out out' : List Output}

theorem Quiet.append (h : Quiet out) (h' : Quiet out') : Quiet (out ++ out') := by
  intro o mem
  rcases List.mem_append.mp mem with old | new
  · exact h o old
  · exact h' o new

theorem Accounts.of_quiet (quiet : Quiet out) (same : heldIds items' = heldIds items) : Accounts items [] out items' := by
  have unpersisted : ∀ o ∈ out, o.persistedIds = [] ∧ o.CommitsLast := by
    intro o mem
    cases o with
    | persistingRequest blocks commitLedgerInfo => exact absurd rfl (quiet _ mem blocks commitLedgerInfo)
    | _ => exact ⟨rfl, trivial⟩
  refine ⟨?_, fun o mem => (unpersisted o mem).2⟩
  rw [List.flatMap_eq_nil_iff.mpr fun o mem => (unpersisted o mem).1, same]
  simp

theorem Accounts.append (h : Accounts items ordered out items') (h' : Accounts items' [] out' items'') :
    Accounts items ordered (out ++ out') items'' := by
  refine ⟨?_, fun o mem => ?_⟩
  · rw [List.flatMap_append, List.append_assoc, h'.flow, List.append_nil, h.flow]
  · rcases List.mem_append.mp mem with old | new
    · exact h.commits o old
    · exact h'.commits o new

theorem Accounts.then_quiet (h : Accounts items ordered out items') (quiet : Quiet out') :
    Accounts items ordered (out ++ out') items' :=
  h.append (.of_quiet quiet rfl)

end Accounts

namespace PipelineState

section Handlers

variable {cfg : Config} {s s' : PipelineState} {items : List (HashValue × BufferItem)} {out : List Output}

/-! The roots move over the buffer and leave it as it is. -/

theorem advanceExecutionRoot_buffer {retry : Option HashValue} (h : advanceExecutionRoot s = some (s', retry)) :
    s'.buffer = s.buffer := by
  simp only [advanceExecutionRoot, Option.bind_eq_bind, Option.bind_eq_some_iff] at h
  obtain ⟨root, -, ran⟩ := h
  rw [← (Prod.mk.inj (Option.some.inj ran)).1]

theorem advanceSigningRoot_eq_some (h : advanceSigningRoot s = some (s', out)) : s'.buffer = s.buffer ∧ Quiet out := by
  simp only [advanceSigningRoot, Option.bind_eq_bind] at h
  obtain ⟨root, -, ran⟩ := Option.bind_eq_some_iff.mp h
  split_ifs at ran
  · obtain ⟨item, -, ran⟩ := Option.bind_eq_some_iff.mp ran
    obtain ⟨executedItem, -, ran⟩ := Option.bind_eq_some_iff.mp ran
    obtain ⟨rfl, rfl⟩ := Prod.mk.inj (Option.some.inj ran)
    exact ⟨rfl, by simp [Quiet]⟩
  · obtain ⟨rfl, rfl⟩ := Prod.mk.inj (Option.some.inj ran)
    exact ⟨rfl, by simp [Quiet]⟩

theorem refreshExecutionRoot_buffer (h : refreshExecutionRoot s = some s') : s'.buffer = s.buffer := by
  unfold refreshExecutionRoot at h
  split_ifs at h
  · obtain ⟨advanced, ran, rfl⟩ := Option.map_eq_some_iff.mp h
    exact advanceExecutionRoot_buffer ran
  · rw [← Option.some.inj h]

theorem refreshSigningRoot_eq_some (h : refreshSigningRoot s = some (s', out)) : s'.buffer = s.buffer ∧ Quiet out := by
  unfold refreshSigningRoot at h
  split_ifs at h
  · exact advanceSigningRoot_eq_some h
  · obtain ⟨rfl, rfl⟩ := Prod.mk.inj (Option.some.inj h)
    exact ⟨rfl, by simp [Quiet]⟩

theorem retryLoop_quiet {b : Buffer BufferItem} {fuel : Nat} {cursor : Cursor} (h : retryLoop b fuel cursor = some out) :
    Quiet out := by
  induction fuel generalizing cursor out with
  | zero =>
      cases cursor with
      | none =>
          rw [← Option.some.inj h]
          simp [Quiet]
      | some key => simp [retryLoop] at h
  | succ fuel ih =>
      cases cursor with
      | none =>
          rw [← Option.some.inj h]
          simp [Quiet]
      | some key =>
          simp only [retryLoop, Option.bind_eq_bind, Option.bind_eq_some_iff] at h
          obtain ⟨item, -, next, -, rest, later, made⟩ := h
          rw [← Option.some.inj made]
          intro o mem blocks commitLedgerInfo
          rcases List.mem_cons.mp mem with rfl | old
          · simp
          · exact ih later o old blocks commitLedgerInfo

end Handlers

end PipelineState

open PipelineState

section Handlers

variable {cfg : Config} {s s' : PipelineState} {items : List (HashValue × BufferItem)} {out : List Output}

/-! `advance_head` sends the items up to its target to the persisting phase. -/

theorem Stored.advanceHeadLoop {target : HashValue} {fuel : Nat} {acc : List Blk} (h : Stored s.buffer items)
    (ran : PipelineState.advanceHeadLoop target fuel s acc = some (s', out)) :
    ∃ pre item post commitLedgerInfo, items = pre ++ (target, item) :: post ∧ Stored s'.buffer post ∧
      out = [.persistingRequest (acc ++ (pre ++ [(target, item)]).flatMap (·.2.getBlocks)) commitLedgerInfo] ∧
      Output.CommitsLast (.persistingRequest (acc ++ (pre ++ [(target, item)]).flatMap (·.2.getBlocks)) commitLedgerInfo) := by
  induction fuel generalizing s acc items with
  | zero => simp [PipelineState.advanceHeadLoop] at ran
  | succ fuel ih =>
      simp only [PipelineState.advanceHeadLoop, Option.bind_eq_bind] at ran
      obtain ⟨popped, pop, ran⟩ := Option.bind_eq_some_iff.mp ran
      obtain ⟨item, present, ran⟩ := Option.bind_eq_some_iff.mp ran
      obtain ⟨itemId, named, ran⟩ := Option.bind_eq_some_iff.mp ran
      cases items with
      | nil =>
          -- an empty buffer pops nothing: the `unreachable!`
          have holds : s.buffer.Holds [] := h.holds
          rw [holds.popFront_nil, Option.some.injEq] at pop
          subst pop
          cases present
      | cons e rest =>
          have holds : s.buffer.Holds ((e.1, some e.2) :: filled rest) := h.holds
          obtain ⟨b', pop', holds', -⟩ := holds.popFront_cons
          rw [pop', Option.some.injEq] at pop
          subst pop
          obtain rfl : e.2 = item := Option.some.inj present
          have key : itemId = e.1 := by
            rw [h.keyed e List.mem_cons_self, Option.some.injEq] at named
            exact named.symm
          subst key
          have restStored : Stored b' rest :=
            ⟨holds', fun e' mem => h.keyed e' (List.mem_cons_of_mem _ mem),
              fun e' mem => h.commitsLast e' (List.mem_cons_of_mem _ mem)⟩
          by_cases hit : e.1 = target
          · -- the target: its commit proof goes with the blocks
            subst hit
            rw [if_pos rfl] at ran
            obtain ⟨aggregatedItem, unwrapped, ran⟩ := Option.bind_eq_some_iff.mp ran
            obtain ⟨block, last, ran⟩ := Option.bind_eq_some_iff.mp ran
            obtain ⟨rfl, rfl⟩ := Prod.mk.inj (Option.some.inj ran)
            have aggregated : e.2 = .aggregated aggregatedItem := by
              cases hItem : e.2 <;> simp [hItem, BufferItem.unwrapAggregated] at unwrapped
              rw [unwrapped]
            have commits := h.commitsLast e List.mem_cons_self
            rw [aggregated] at commits
            refine ⟨[], e.2, rest, aggregatedItem.commitProof, rfl, restStored, ?_, ?_⟩
            · simp [aggregated, BufferItem.getBlocks]
            · simp only [Output.CommitsLast, List.nil_append, List.flatMap_cons, List.flatMap_nil, List.append_nil,
                aggregated, BufferItem.getBlocks, List.getLast?_append, last, Option.some_or]
              simpa [BufferItem.CommitsLast, last] using commits
          · rw [if_neg hit] at ran
            obtain ⟨pre, item', post, commitLedgerInfo, split, stored, rfl, commits⟩ := ih restStored ran
            refine ⟨e :: pre, item', post, commitLedgerInfo, by rw [split]; rfl, stored, ?_, ?_⟩
            · simp
            · simpa using commits

theorem Stored.advanceHead {target : HashValue} (h : Stored s.buffer items)
    (ran : PipelineState.advanceHead target s = some (s', out)) :
    ∃ items', Stored s'.buffer items' ∧ Accounts items [] out items' := by
  obtain ⟨pre, item, post, commitLedgerInfo, split, stored, rfl, commits⟩ := h.advanceHeadLoop ran
  refine ⟨post, stored, ?_, ?_⟩
  · simp [Output.persistedIds, split, heldIds, List.map_flatMap]
  · intro o mem
    rw [List.mem_singleton.mp mem]
    exact commits

/-! The handlers of the loop's events. -/

theorem Stored.processOrderedBlocks (h : Stored s.buffer items) {orderedBlocks : List Blk}
    {orderedProof : LedgerInfoWithSignatures}
    (fresh : ∀ block ∈ orderedBlocks.getLast?, (s.buffer.map.get block.id).isNone)
    (ran : PipelineState.processOrderedBlocks cfg s orderedBlocks orderedProof = some (s', out)) :
    ∃ items', Stored s'.buffer items' ∧ Accounts items (orderedBlocks.map (·.id)) out items' := by
  simp only [PipelineState.processOrderedBlocks, Option.bind_eq_bind] at ran
  obtain ⟨targetBlockId, named, ran⟩ := Option.bind_eq_some_iff.mp ran
  obtain ⟨buffer, pushed, ran⟩ := Option.bind_eq_some_iff.mp ran
  obtain ⟨rfl, rfl⟩ := Prod.mk.inj (Option.some.inj ran)
  -- the cached votes leave the ordered blocks and the key of the new item
  have keeps := BufferItem.foldl_addSignatureIfMatched_keeps cfg.matchOrderedOnly
    (s.caches.drainCachedCommitVotes cfg.intoValues (BufferItem.newOrdered orderedBlocks orderedProof).commitInfo.round
      targetBlockId).2 (BufferItem.newOrdered orderedBlocks orderedProof)
  have freshKey : (s.buffer.map.get targetBlockId).isNone := by
    obtain ⟨block, last, rfl⟩ : ∃ block, orderedBlocks.getLast? = some block ∧ block.id = targetBlockId := by
      simpa [BufferItem.blockId, BufferItem.newOrdered, BufferItem.getBlocks] using named
    exact fresh block last
  refine ⟨_, h.pushBack (keeps.blockId_eq.trans named) freshKey (keeps.commitsLast trivial) pushed, ?_, ?_⟩
  · simp only [heldIds_append, heldIds_cons, heldIds_nil]
    rw [keeps.ids]
    simp [Output.persistedIds, BufferItem.newOrdered, BufferItem.getBlocks]
  · simp [Output.CommitsLast]

theorem Stored.processExecutionResponse (h : Stored s.buffer items) {blockId : HashValue}
    {inner : Except Unit (List Blk)} (ran : PipelineState.processExecutionResponse cfg s blockId inner = some (s', out)) :
    ∃ items', Stored s'.buffer items' ∧ Accounts items [] out items' := by
  simp only [PipelineState.processExecutionResponse, Option.bind_eq_bind] at ran
  by_cases noCursor : (s.buffer.findElemByKey s.executionRoot blockId).isNone = true
  · rw [if_pos noCursor] at ran
    obtain ⟨rfl, rfl⟩ := Prod.mk.inj (Option.some.inj ran)
    exact ⟨items, h, .of_quiet (by simp [Quiet]) rfl⟩
  rw [if_neg noCursor] at ran
  obtain ⟨k, found⟩ := Option.ne_none_iff_exists'.mp (by simpa using noCursor)
  obtain ⟨rfl, -⟩ := h.findElemByKey_eq_some found
  rw [found] at ran
  cases inner with
  | error e =>
      obtain ⟨rfl, rfl⟩ := Prod.mk.inj (Option.some.inj ran)
      exact ⟨items, h, .of_quiet (by simp [Quiet]) rfl⟩
  | ok executedBlocks =>
      obtain ⟨last, -, ran⟩ := Option.bind_eq_some_iff.mp ran
      obtain ⟨currentItem, -, ran⟩ := Option.bind_eq_some_iff.mp ran
      obtain ⟨currentId, -, ran⟩ := Option.bind_eq_some_iff.mp ran
      by_cases other : currentId ≠ k
      · rw [if_pos other] at ran
        obtain ⟨rfl, rfl⟩ := Prod.mk.inj (Option.some.inj ran)
        exact ⟨items, h, .of_quiet (by simp [Quiet]) rfl⟩
      rw [if_neg other] at ran
      obtain ⟨taken, took, ran⟩ := Option.bind_eq_some_iff.mp ran
      obtain ⟨newItem, advanced, ran⟩ := Option.bind_eq_some_iff.mp ran
      obtain ⟨drained, -, ran⟩ := Option.bind_eq_some_iff.mp ran
      obtain ⟨newItem', matched, ran⟩ := Option.bind_eq_some_iff.mp ran
      obtain ⟨buffer, set, ran⟩ := Option.bind_eq_some_iff.mp ran
      -- the item advances, and may take the commit proof cached for its round
      have keeps : BufferItem.Keeps taken.1 newItem' := by
        refine (BufferItem.advanceToExecutedOrAggregated_keeps advanced).trans ?_
        split at matched
        · split_ifs at matched
          · exact BufferItem.tryAdvanceToAggregatedWithLedgerInfo_keeps matched
          · rw [← Option.some.inj matched]
            exact .refl _
        · rw [← Option.some.inj matched]
          exact .refl _
      obtain ⟨items', stored, same, -⟩ := h.take_set took keeps set
      by_cases aggregated : newItem'.isAggregated = true
      · rw [if_pos aggregated] at ran
        obtain ⟨items'', stored', accounts⟩ := Stored.advanceHead stored ran
        exact ⟨items'', stored', by rw [accounts.flow, same], accounts.commits⟩
      · rw [if_neg aggregated] at ran
        obtain ⟨rfl, rfl⟩ := Prod.mk.inj (Option.some.inj ran)
        exact ⟨items', stored, .of_quiet (by simp [Quiet]) same⟩

theorem Stored.processSigningResponse (h : Stored s.buffer items) {signatureResult : Except Unit Signature}
    {commitLedgerInfo : LedgerInfo}
    (ran : PipelineState.processSigningResponse cfg s signatureResult commitLedgerInfo = some (s', out)) :
    ∃ items', Stored s'.buffer items' ∧ Accounts items [] out items' := by
  simp only [PipelineState.processSigningResponse, Option.bind_eq_bind] at ran
  -- a failed signature, or one for an item no longer in the buffer, changes nothing
  have quiet : some (s, []) = some (s', out) → ∃ items', Stored s'.buffer items' ∧ Accounts items [] out items' := by
    intro same
    obtain ⟨rfl, rfl⟩ := Prod.mk.inj (Option.some.inj same)
    exact ⟨items, h, .of_quiet (by simp [Quiet]) rfl⟩
  cases signatureResult with
  | error e => exact quiet ran
  | ok signature =>
  dsimp only at ran
  by_cases skip : (s.buffer.findElemByKey s.signingRoot commitLedgerInfo.commitInfo.id).isNone = true
  · rw [if_pos skip] at ran
    exact quiet ran
  rw [if_neg skip] at ran
  obtain ⟨k, found⟩ : ∃ k, s.buffer.findElemByKey s.signingRoot commitLedgerInfo.commitInfo.id = some k :=
    Option.ne_none_iff_exists'.mp (by simpa using skip)
  rw [found] at ran
  obtain ⟨taken, took, ran⟩ := Option.bind_eq_some_iff.mp ran
  by_cases executed : taken.1.isExecuted = true
  · -- a still executed item is signed, and its vote broadcast
    rw [if_pos executed] at ran
    obtain ⟨signedItem, signing, ran⟩ := Option.bind_eq_some_iff.mp ran
    obtain ⟨signed, -, ran⟩ := Option.bind_eq_some_iff.mp ran
    obtain ⟨buffer, set, ran⟩ := Option.bind_eq_some_iff.mp ran
    obtain ⟨rfl, rfl⟩ := Prod.mk.inj (Option.some.inj ran)
    obtain ⟨items', stored, same, -⟩ := h.take_set took (BufferItem.advanceToSigned_eq_some signing).2.2 set
    refine ⟨items', stored, .of_quiet ?_ same⟩
    split <;> simp [Quiet]
  · rw [if_neg executed] at ran
    obtain ⟨buffer, set, ran⟩ := Option.bind_eq_some_iff.mp ran
    obtain ⟨rfl, rfl⟩ := Prod.mk.inj (Option.some.inj ran)
    obtain ⟨items', stored, same, -⟩ := h.take_set took (.refl _) set
    exact ⟨items', stored, .of_quiet (by simp [Quiet]) same⟩

theorem Stored.processCommitMessage (h : Stored s.buffer items) {msg : CommitMessage} {aggregated : Option HashValue}
    (ran : PipelineState.processCommitMessage cfg s msg = some (s', out, aggregated)) :
    ∃ items', Stored s'.buffer items' ∧ Accounts items [] out items' := by
  cases msg with
  | vote vote =>
      simp only [PipelineState.processCommitMessage, Option.bind_eq_bind] at ran
      by_cases present : (s.buffer.findElemByKey s.buffer.head vote.commitInfo.id).isSome = true
      · rw [if_pos present] at ran
        obtain ⟨k, found⟩ := Option.isSome_iff_exists.mp present
        rw [found] at ran
        obtain ⟨taken, took, ran⟩ := Option.bind_eq_some_iff.mp ran
        obtain ⟨newItem, advanced, ran⟩ := Option.bind_eq_some_iff.mp ran
        obtain ⟨buffer, set, ran⟩ := Option.bind_eq_some_iff.mp ran
        obtain ⟨stored, -, ran⟩ := Option.bind_eq_some_iff.mp ran
        simp only [Option.pure_def, Option.some.injEq, Prod.mk.injEq] at ran; obtain ⟨rfl, rfl, -⟩ := ran
        -- the cached votes, then this one, and the aggregation once it matched
        have keeps : BufferItem.Keeps taken.1 newItem := by
          refine ((BufferItem.foldl_addSignatureIfMatched_keeps cfg.matchOrderedOnly
            (s.caches.drainCachedCommitVotes cfg.intoValues vote.commitInfo.round vote.commitInfo.id).2 taken.1).trans
            (BufferItem.addSignatureIfMatched_keeps cfg.matchOrderedOnly _ vote)).trans ?_
          split at advanced
          · exact BufferItem.tryAdvanceToAggregated_keeps advanced
          · rw [← Option.some.inj advanced]
            exact .refl _
        obtain ⟨items', stored', same, -⟩ := h.take_set took keeps set
        refine ⟨items', stored', .of_quiet ?_ same⟩
        split <;> simp [Quiet]
      · rw [if_neg present] at ran
        simp only [Option.some.injEq, Prod.mk.injEq] at ran
        obtain ⟨rfl, rfl, -⟩ := ran
        refine ⟨items, h, .of_quiet ?_ rfl⟩
        split <;> simp [Quiet]
  | decision commitProof =>
      simp only [PipelineState.processCommitMessage, Option.bind_eq_bind] at ran
      by_cases present : (s.buffer.findElemByKey s.buffer.head commitProof.commitInfo.id).isSome = true
      · rw [if_pos present] at ran
        obtain ⟨k, found⟩ := Option.isSome_iff_exists.mp present
        rw [found] at ran
        obtain ⟨taken, took, ran⟩ := Option.bind_eq_some_iff.mp ran
        obtain ⟨newItem, advanced, ran⟩ := Option.bind_eq_some_iff.mp ran
        obtain ⟨buffer, set, ran⟩ := Option.bind_eq_some_iff.mp ran
        obtain ⟨items', stored', same, -⟩ :=
          h.take_set took (BufferItem.tryAdvanceToAggregatedWithLedgerInfo_keeps advanced) set
        have ranQuiet : Quiet out := by
          split_ifs at ran
          · simp only [Option.pure_def, Option.some.injEq, Prod.mk.injEq] at ran
            simp [Quiet, ← ran.2.1]
          · simp only [Option.pure_def, Option.some.injEq, Prod.mk.injEq] at ran
            simp [Quiet, ← ran.2.1]
        have ranBuffer : s'.buffer = buffer := by
          split_ifs at ran <;>
            · simp only [Option.pure_def, Option.some.injEq, Prod.mk.injEq] at ran
              rw [← ran.1]
        exact ⟨items', ranBuffer ▸ stored', .of_quiet ranQuiet same⟩
      · rw [if_neg present] at ran
        obtain ⟨added, -, ran⟩ := Option.bind_eq_some_iff.mp ran
        simp only [Option.pure_def, Option.some.injEq, Prod.mk.injEq] at ran; obtain ⟨rfl, rfl, -⟩ := ran
        exact ⟨items, h, .of_quiet (by simp [Quiet]) rfl⟩
  | ack | nack =>
      simp only [PipelineState.processCommitMessage, Option.some.injEq, Prod.mk.injEq] at ran
      obtain ⟨rfl, rfl, -⟩ := ran
      exact ⟨items, h, .of_quiet (by simp [Quiet]) rfl⟩

theorem Stored.step (h : Stored s.buffer items) {e : Event} (fresh : FreshBatch s e)
    (stepped : PipelineState.step cfg s e = some (s', out)) :
    ∃ items', Stored s'.buffer items' ∧ (e.isReset = true → items' = [] ∧ ∀ o ∈ out, o.CommitsLast) ∧
      (e.isReset = false → Accounts items e.orderedIds out items') := by
  unfold PipelineState.step at stepped
  by_cases stopped : s.stop = true
  · rw [if_pos stopped] at stepped
    cases stepped
  rw [if_neg stopped] at stepped
  -- every event but a reset accounts for its blocks
  suffices accounted : e.isReset = false → ∃ items', Stored s'.buffer items' ∧ Accounts items e.orderedIds out items' by
    cases e with
    | reset signal =>
        simp only [PipelineState.processResetRequest, Option.some.injEq, Prod.mk.injEq] at stepped
        obtain ⟨rfl, rfl⟩ := stepped
        exact ⟨[], stored_new, fun _ => ⟨rfl, by simp [Output.CommitsLast]⟩, by simp [Event.isReset]⟩
    | _ =>
        obtain ⟨items', stored, accounts⟩ := accounted rfl
        exact ⟨items', stored, by simp [Event.isReset], fun _ => accounts⟩
  intro notReset
  cases e with
  | reset signal => simp [Event.isReset] at notReset
  | orderedBlocks orderedBlocks orderedProof =>
      obtain ⟨backpressure, -, stepped⟩ := Option.bind_eq_some_iff.mp stepped
      by_cases held : backpressure = true
      · rw [if_pos held] at stepped
        cases stepped
      rw [if_neg held] at stepped
      obtain ⟨block, -, stepped⟩ := Option.bind_eq_some_iff.mp stepped
      obtain ⟨processed, processing, stepped⟩ := Option.bind_eq_some_iff.mp stepped
      obtain ⟨refreshed, refreshing, stepped⟩ := Option.bind_eq_some_iff.mp stepped
      obtain ⟨rfl, rfl⟩ := Prod.mk.inj (Option.some.inj stepped)
      obtain ⟨items', stored, accounts⟩ := Stored.processOrderedBlocks (s := { s with latestRound := block.round }) h
        fresh processing
      exact ⟨items', (refreshExecutionRoot_buffer refreshing).symm ▸ stored, accounts⟩
  | executionScheduleResponse blockId =>
      obtain ⟨rfl, rfl⟩ := Prod.mk.inj (Option.some.inj stepped)
      exact ⟨items, h, .of_quiet (by simp [Quiet]) rfl⟩
  | executionResponse blockId inner =>
      obtain ⟨processed, processing, stepped⟩ := Option.bind_eq_some_iff.mp stepped
      obtain ⟨advanced, advancing, stepped⟩ := Option.bind_eq_some_iff.mp stepped
      obtain ⟨signing, refreshing, stepped⟩ := Option.bind_eq_some_iff.mp stepped
      obtain ⟨rfl, rfl⟩ := Prod.mk.inj (Option.some.inj stepped)
      obtain ⟨items', stored, accounts⟩ := Stored.processExecutionResponse h processing
      obtain ⟨signedBuffer, signedQuiet⟩ := refreshSigningRoot_eq_some refreshing
      refine ⟨items', ?_, ?_⟩
      · rw [signedBuffer, advanceExecutionRoot_buffer advancing]
        exact stored
      · refine (accounts.then_quiet ?_).then_quiet signedQuiet
        split <;> simp [Quiet]
  | executionScheduleRetry =>
      obtain ⟨requests, retried, stepped⟩ := Option.bind_eq_some_iff.mp stepped
      obtain ⟨rfl, rfl⟩ := Prod.mk.inj (Option.some.inj stepped)
      exact ⟨items, h, .of_quiet (retryLoop_quiet retried) rfl⟩
  | signingResponse signatureResult commitLedgerInfo =>
      obtain ⟨processed, processing, stepped⟩ := Option.bind_eq_some_iff.mp stepped
      obtain ⟨signing, advancing, stepped⟩ := Option.bind_eq_some_iff.mp stepped
      obtain ⟨rfl, rfl⟩ := Prod.mk.inj (Option.some.inj stepped)
      obtain ⟨items', stored, accounts⟩ := Stored.processSigningResponse h processing
      obtain ⟨signedBuffer, signedQuiet⟩ := advanceSigningRoot_eq_some advancing
      exact ⟨items', signedBuffer ▸ stored, accounts.then_quiet signedQuiet⟩
  | persistingResponse result =>
      cases result with
      | ok round =>
          obtain ⟨rfl, rfl⟩ := Prod.mk.inj (Option.some.inj stepped)
          exact ⟨items, h, .of_quiet (by simp [Quiet]) rfl⟩
      | error e =>
          obtain ⟨rfl, rfl⟩ := Prod.mk.inj (Option.some.inj stepped)
          exact ⟨items, h, .of_quiet (by simp [Quiet]) rfl⟩
  | commitMessage msg =>
      obtain ⟨processed, processing, stepped⟩ := Option.bind_eq_some_iff.mp stepped
      obtain ⟨items', stored, accounts⟩ := Stored.processCommitMessage h processing
      split at stepped
      · obtain ⟨rfl, rfl⟩ := Prod.mk.inj (Option.some.inj stepped)
        exact ⟨items', stored, accounts⟩
      · -- an aggregated item sends the head of the buffer to the persisting phase
        obtain ⟨persisted, persisting, stepped⟩ := Option.bind_eq_some_iff.mp stepped
        obtain ⟨refreshed, refreshing, stepped⟩ := Option.bind_eq_some_iff.mp stepped
        obtain ⟨signing, signingRefresh, stepped⟩ := Option.bind_eq_some_iff.mp stepped
        obtain ⟨rfl, rfl⟩ := Prod.mk.inj (Option.some.inj stepped)
        obtain ⟨items'', stored', accounts'⟩ := Stored.advanceHead stored persisting
        obtain ⟨signedBuffer, signedQuiet⟩ := refreshSigningRoot_eq_some signingRefresh
        refine ⟨items'', ?_, (accounts.append accounts').then_quiet signedQuiet⟩
        rw [signedBuffer, refreshExecutionRoot_buffer refreshing]
        exact stored'

end Handlers

/-! ### Whole runs -/

/-- The events of a trace after its last reset. -/
def sinceReset (evs : List (Event × List Output)) : List (Event × List Output) :=
  (evs.reverse.takeWhile fun ev => !ev.1.isReset).reverse

/-- The ids of the blocks persisted by the events. -/
def persistedIds (evs : List (Event × List Output)) : List HashValue := evs.flatMap fun ev => ev.2.flatMap Output.persistedIds

/-- The ids of the blocks ordered by the events. -/
def orderedIds (evs : List (Event × List Output)) : List HashValue := evs.flatMap fun ev => ev.1.orderedIds

theorem sinceReset_nil : sinceReset [] = [] := rfl

theorem sinceReset_append_reset {evs : List (Event × List Output)} {ev : Event × List Output}
    (reset : ev.1.isReset = true) : sinceReset (evs ++ [ev]) = [] := by
  simp [sinceReset, reset]

theorem sinceReset_append {evs : List (Event × List Output)} {ev : Event × List Output}
    (notReset : ev.1.isReset = false) : sinceReset (evs ++ [ev]) = sinceReset evs ++ [ev] := by
  simp [sinceReset, notReset]

section Runs

variable {cfg : Config} {s₀ s : PipelineState} {evs : List (Event × List Output)}

/-- The invariant of the runs: the buffer holds items whose blocks are the
ordered ones since the last reset that were not persisted since then, and
every persisting request so far committed its last block. -/
theorem stored_of_trace (start : s₀.buffer = Buffer.new) (h : Trace (PipelineState.step cfg) FreshBatch s₀ evs s) :
    ∃ items, Stored s.buffer items ∧ (∀ ev ∈ evs, ∀ o ∈ ev.2, o.CommitsLast) ∧
      persistedIds (sinceReset evs) ++ heldIds items = orderedIds (sinceReset evs) := by
  induction h with
  | nil => exact ⟨[], start ▸ stored_new, by simp, by simp [sinceReset_nil, persistedIds, orderedIds]⟩
  | @snoc t t' evs e out _ allowed stepped ih =>
      obtain ⟨items, stored, commits, flow⟩ := ih
      obtain ⟨items', stored', afterReset, accounted⟩ := stored.step allowed stepped
      have commitsAll : ∀ ev ∈ evs ++ [(e, out)], ∀ o ∈ ev.2, o.CommitsLast := by
        intro ev mem
        rcases List.mem_append.mp mem with old | new
        · exact commits ev old
        · rw [List.mem_singleton.mp new]
          cases reset : e.isReset
          · exact (accounted reset).commits
          · exact (afterReset reset).2
      refine ⟨items', stored', commitsAll, ?_⟩
      cases reset : e.isReset
      · -- the event's blocks join the account since the last reset
        have flowStep := (accounted reset).flow
        rw [sinceReset_append reset]
        simp only [persistedIds, orderedIds, List.flatMap_append, List.flatMap_singleton] at flow ⊢
        rw [List.append_assoc, flowStep, ← List.append_assoc, flow]
      · -- a reset empties the buffer and starts the account again
        rw [sinceReset_append_reset reset, (afterReset reset).1]
        rfl

/-- Since the last reset, the blocks the persisting requests carried, followed
by the blocks still in the buffer, are exactly the blocks ordered, in order:
the pipeline loses, repeats and reorders none of them. -/
theorem pipeline_persists_ordered_blocks (start : s₀.buffer = Buffer.new)
    (h : Trace (PipelineState.step cfg) FreshBatch s₀ evs s) :
    ∃ items, Stored s.buffer items ∧ persistedIds (sinceReset evs) ++ heldIds items = orderedIds (sinceReset evs) := by
  obtain ⟨items, stored, -, flow⟩ := stored_of_trace start h
  exact ⟨items, stored, flow⟩

/-- Every persisting request carries the commit proof of its last block. -/
theorem persisting_requests_commit_last_block (start : s₀.buffer = Buffer.new)
    (h : Trace (PipelineState.step cfg) FreshBatch s₀ evs s) :
    ∀ ev ∈ evs, ∀ blocks commitLedgerInfo, Output.persistingRequest blocks commitLedgerInfo ∈ ev.2 →
      some commitLedgerInfo.commitInfo.id = blocks.getLast?.map (·.id) := by
  obtain ⟨items, -, commits, -⟩ := stored_of_trace start h
  intro ev mem blocks commitLedgerInfo persisted
  exact commits ev mem _ persisted

end Runs

/-! ### A run: a block ordered, its commit decision, then its execution -/

/-- A block without a reconfiguration. -/
def sampleBlock : Blk := ⟨7, some 1, 1, 3, 100, ⟨⟨0, 0, []⟩, none⟩⟩

/-- A proof of the block's own commit info. -/
def sampleProof : LedgerInfoWithSignatures := ⟨⟨sampleBlock.blockInfo, 0⟩, []⟩

/-- A node that takes every commit decision for its ordered blocks. -/
def sampleConfig : Config := ⟨0, .ideal [] 1, inAuthorOrder, false, false, fun _ => false, fun _ _ => true⟩

/-- A new buffer manager. -/
def sampleStart : PipelineState := ⟨BufferManager.new 0 10, Buffer.new, none, none, 0, none, false⟩

theorem sample_ordered : (PipelineState.step sampleConfig sampleStart (.orderedBlocks [sampleBlock] sampleProof)).isSome := by
  decide +kernel

/-- The state and outputs after the ordered block. -/
def sampleOrdered : PipelineState × List Output :=
  (PipelineState.step sampleConfig sampleStart (.orderedBlocks [sampleBlock] sampleProof)).get sample_ordered

theorem sample_ordered_step :
    PipelineState.step sampleConfig sampleStart (.orderedBlocks [sampleBlock] sampleProof) = some sampleOrdered :=
  (Option.some_get sample_ordered).symm

theorem sample_decided : (PipelineState.step sampleConfig sampleOrdered.1 (.commitMessage (.decision sampleProof))).isSome := by
  decide +kernel

/-- The state and outputs after the commit decision, which the ordered item keeps. -/
def sampleDecided : PipelineState × List Output :=
  (PipelineState.step sampleConfig sampleOrdered.1 (.commitMessage (.decision sampleProof))).get sample_decided

theorem sample_decided_step :
    PipelineState.step sampleConfig sampleOrdered.1 (.commitMessage (.decision sampleProof)) = some sampleDecided :=
  (Option.some_get sample_decided).symm

theorem sample_executed :
    (PipelineState.step sampleConfig sampleDecided.1 (.executionResponse 7 (.ok [sampleBlock]))).isSome := by
  decide +kernel

/-- The state and outputs after the execution, which aggregates the item and persists it. -/
def sampleExecuted : PipelineState × List Output :=
  (PipelineState.step sampleConfig sampleDecided.1 (.executionResponse 7 (.ok [sampleBlock]))).get sample_executed

theorem sample_executed_step :
    PipelineState.step sampleConfig sampleDecided.1 (.executionResponse 7 (.ok [sampleBlock])) = some sampleExecuted :=
  (Option.some_get sample_executed).symm

/-- The three events with their outputs. -/
def sampleEvents : List (Event × List Output) :=
  [(.orderedBlocks [sampleBlock] sampleProof, sampleOrdered.2), (.commitMessage (.decision sampleProof), sampleDecided.2),
    (.executionResponse 7 (.ok [sampleBlock]), sampleExecuted.2)]

theorem sample_trace : Trace (PipelineState.step sampleConfig) FreshBatch sampleStart sampleEvents sampleExecuted.1 := by
  have fresh : FreshBatch sampleStart (.orderedBlocks [sampleBlock] sampleProof) := fun _ _ => rfl
  have decision : FreshBatch sampleOrdered.1 (.commitMessage (.decision sampleProof)) := trivial
  have execution : FreshBatch sampleDecided.1 (.executionResponse 7 (.ok [sampleBlock])) := trivial
  have ordered := Trace.snoc (.nil sampleStart) fresh sample_ordered_step
  have decided := Trace.snoc ordered decision sample_decided_step
  exact Trace.snoc decided execution sample_executed_step

example : persistedIds sampleEvents = [7] := by decide +kernel

theorem pipeline_persists_ordered_blocks_sample :
    ∃ items, Stored sampleExecuted.1.buffer items ∧
      persistedIds (sinceReset sampleEvents) ++ heldIds items = orderedIds (sinceReset sampleEvents) :=
  pipeline_persists_ordered_blocks rfl sample_trace

/-- The execution of the sample run persists the block with its commit proof. -/
theorem persisting_requests_commit_last_block_sample :
    sampleExecuted.2 = [.persistingRequest [sampleBlock] sampleProof] ∧
      some sampleProof.commitInfo.id = [sampleBlock].getLast?.map (·.id) :=
  have sent : sampleExecuted.2 = [.persistingRequest [sampleBlock] sampleProof] := rfl
  have executed : (Event.executionResponse 7 (.ok [sampleBlock]), sampleExecuted.2) ∈ sampleEvents :=
    List.mem_cons_of_mem _ (List.mem_cons_of_mem _ List.mem_cons_self)
  ⟨sent, persisting_requests_commit_last_block rfl sample_trace _ executed [sampleBlock] sampleProof
    (sent ▸ List.mem_singleton_self _)⟩

end GravitySdk.Pipeline
