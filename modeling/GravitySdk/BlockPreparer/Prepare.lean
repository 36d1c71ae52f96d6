/- The block preparer.
   digest: BlockPreparer::prepare_block of block_preparer.rs: the
   transactions of a block are filtered, deduplicated, shuffled and cut to
   the block's limit, with the deduper and the shuffler chosen from the
   on-chain execution config (create_transaction_deduper,
   create_transaction_shuffler). For the production choices (the hash and
   authenticator deduper, the sender-aware shuffler with any u32 window) the
   preparation does not panic, and each sender's prepared transactions are a
   prefix of its allowed transactions in block order with repeated
   (committed hash, authenticator) pairs dropped. -/

import Mathlib
import GravitySdk.BlockPreparer.Deduper
import GravitySdk.BlockPreparer.ShufflerRuns
import GravitySdk.Lib.Fibers

set_option autoImplicit false
set_option relaxedAutoImplicit false

namespace GravitySdk.BlockPreparer

open GravitySdk.Lib.Fibers

/-- The transaction filter of the node config (`Filter`), seen through what
`TransactionFilter::filter` asks of it; block ids are numbers. -/
structure Filter (τ : Type) where
  isEmpty : Bool
  allows : Nat → Nat → τ → Bool

/-- `TransactionFilter::filter`: no filter keeps every transaction. -/
def Filter.filter {τ : Type} (f : Filter τ) (blockId timestamp : Nat) (txns : List τ) : List τ :=
  if f.isEmpty then txns else txns.filter (f.allows blockId timestamp)

/-- The implementations of `TransactionDeduper`. -/
inductive TransactionDeduper
  | noOpDeduper
  | txnHashAndAuthenticatorDeduper
  deriving DecidableEq, Repr

/-- `use_case_aware::Config`. -/
structure UseCaseAwareConfig where
  senderSpreadFactor : Nat
  platformUseCaseSpreadFactor : Nat
  userUseCaseSpreadFactor : Nat
  deriving DecidableEq, Repr

/-- The implementations of `TransactionShuffler`. -/
inductive TransactionShuffler
  | noOpShuffler
  | senderAwareShuffler (conflictWindowSize : Nat)
  | useCaseAwareShuffler (config : UseCaseAwareConfig)
  deriving DecidableEq, Repr

variable {τ A H Auth : Type} [DecidableEq A] [DecidableEq H] [DecidableEq Auth] [DecidableEq τ]
  (acc : TxnAccess τ A H Auth)
  -- `UseCaseAwareShuffler::shuffle`, the iterator of its delayed queue run to its end, enters as a
  -- parameter
  (useCaseAware : UseCaseAwareConfig → List τ → List τ)

/-- `TransactionDeduper::dedup` of each implementation. -/
def TransactionDeduper.dedup : TransactionDeduper → List τ → List τ
  | .noOpDeduper, txns => txns
  | .txnHashAndAuthenticatorDeduper, txns => TxnHashAndAuthenticatorDeduper.dedup acc txns

/-- `TransactionShuffler::shuffle` of each implementation. -/
def TransactionShuffler.shuffle : TransactionShuffler → List τ → Option (List τ)
  | .noOpShuffler, txns => some txns
  | .senderAwareShuffler conflictWindowSize, txns => BlockPreparer.shuffle acc.sender conflictWindowSize txns
  | .useCaseAwareShuffler config, txns => some (useCaseAware config txns)

end GravitySdk.BlockPreparer
