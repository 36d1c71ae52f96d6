/- Failed calls and the state they leave.
   digest: Every block operation but set_commit_blocks validates before it
   writes, so an error leaves the manager as it was; set_commit_blocks commits
   the blocks before the failing one. -/

import GravitySdk.BlockBuffer.Spec

set_option autoImplicit false
set_option relaxedAutoImplicit false

namespace GravitySdk.BlockBuffer

open GravitySdk.Lib GravitySdk.Lib.Transition

variable {VS : Type}

namespace BlockBufferManager

variable {g : Gaptos VS} {maxBlockSize : Nat} {m m' : BlockBufferManager VS}

private theorem commitOrReply_error {r : Except BbmError (BlockStateMachine VS)} {e : BbmError}
    (h : m.commitOrReply r = (m', .error e)) : m' = m := by
  unfold commitOrReply at h
  split at h
  · simp at h
  · simp only [Prod.mk.injEq] at h
    exact h.1.symm

/-- A call other than `set_commit_blocks` that returns an error leaves the
manager, its state machine and its buffer state, exactly as it was. -/
theorem step_error_unchanged (c : Call) (notCommit : ∀ blockIds epoch, c ≠ .setCommitBlocks blockIds epoch)
    {e : BbmError} (h : step g maxBlockSize m c = some (m', .error e)) : m' = m := by
  cases c with
  | init latestCommitBlockNumber map initialEpoch =>
      simp only [step] at h
      split at h
      · simp at h
      · simp only [Option.some.injEq, Prod.mk.injEq] at h
        exact h.1.symm
  | initEpoch => simp [step] at h
  | setOrderedBlocks =>
      simp only [step] at h
      split_ifs at h
      exact commitOrReply_error (Option.some.inj h)
  | getOrderedBlocks =>
      simp only [step] at h
      split_ifs at h
      obtain ⟨x, -, hx⟩ := Option.map_eq_some_iff.mp h
      cases x <;> simp only [Prod.mk.injEq, reduceCtorEq, and_false] at hx
      exact hx.1.symm
  | getExecutedRes =>
      simp only [step] at h
      split_ifs at h
      obtain ⟨x, -, hx⟩ := Option.map_eq_some_iff.mp h
      rcases x with _ | ⟨_, _⟩ <;> simp only [Prod.mk.injEq, reduceCtorEq, and_false] at hx
      exact hx.1.symm
  | setComputeRes =>
      simp only [step] at h
      split_ifs at h
      exact commitOrReply_error (Option.some.inj h)
  | setCommitBlocks blockIds epoch => exact (notCommit blockIds epoch rfl).elim
  | getCommittedBlocks =>
      simp only [step] at h
      split_ifs at h
      obtain ⟨⟨_, _⟩, -, hx⟩ := Option.map_eq_some_iff.mp h
      simp at hx
  | setState => simp [step] at h
  | getEpochChangeBlockInfo => simp [step] at h
  | releaseInflightBlocks => simp [step] at h
  | consumeEpochChange => simp [step] at h
  | removeCommittedBlocks => simp [step] at h

/-- Block 1 is computed and block 2 only ordered; committing both in one call
fails on block 2 after block 1 has been moved to `Committed`. -/
theorem setCommitBlocks_commits_before_failing :
    let g : Gaptos Unit := ⟨fun _ => .ok (), 0⟩
    let calls : List Call :=
      [.init 0 KeyMap.empty 1, .setOrderedBlocks 10 ⟨11, 1, 100, 1, 0⟩ 5,
        .setOrderedBlocks 11 ⟨12, 2, 200, 1, 0⟩ 6, .setComputeRes 11 111 1 1 []]
    let r : StateComputeResult Unit := ⟨⟨111, 0, []⟩, none⟩
    (run (step g 256) new calls).map (fun p => p.1.blockStateMachine.blocks.get ⟨1, 1⟩) =
        some (some (.computed 11 r)) ∧
      (run (step g 256) new (calls ++ [.setCommitBlocks [⟨11, 1, some 7⟩, ⟨12, 2, some 8⟩] 1])).map
          (fun p => (p.2.getLast?, p.1.blockStateMachine.blocks.get ⟨1, 1⟩)) =
        some (some (.error (.commitMeetsOrdered 12 2)), some (.committed (some 7) r 11 false)) := by
  decide

end BlockBufferManager

end GravitySdk.BlockBuffer
