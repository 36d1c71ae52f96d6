/- The column families of ConsensusDB.
   digest: The stored block (with the block number its codec drops), the
   payload's batches, the ledger info as the database reads it, and the
   database as one sorted store per column family that unwind and the
   reputation anchor read, with get_max_epoch. -/

import Mathlib
import GravitySdk.Lib.SortedStore
import GravitySdk.Consensus.Types
import GravitySdk.BlockBuffer.Types

set_option autoImplicit false
set_option relaxedAutoImplicit false

namespace GravitySdk.ConsensusDb

open GravitySdk.Lib

/-- A 32-byte hash. -/
abbrev HashValue := Nat

/-- `u64::MAX`. -/
def u64Max : Nat := 2 ^ 64 - 1

/-- `HashValue::new([u8::MAX; HashValue::LENGTH])`, the largest id. -/
def hashMax : HashValue := 2 ^ 256 - 1

/-- The `(epoch, block id)` key of BlockSchema, QCSchema and BlockNumberSchema,
ordered as its big-endian encoding is: by epoch, then by id. -/
abbrev EpochKey := Lex (Nat × HashValue)

/-- `BatchKey`: the epoch and digest of a quorum-store batch. -/
structure BatchKey where
  epoch : Nat
  digest : HashValue
  deriving DecidableEq, Repr

/-- `Payload`, each variant with the epoch and digest of the batch infos it
carries. -/
inductive Payload where
  | directMempool
  | inQuorumStore (proofs : List BatchKey)
  | inQuorumStoreWithLimit (proofs : List BatchKey)
  | quorumStoreInlineHybrid (inlineBatches : List BatchKey) (proofs : List BatchKey)
  | optQuorumStore (optBatches : List BatchKey) (proofs : List BatchKey)
  deriving DecidableEq, Repr

/-- The batches that unwind collects from a deleted block's payload, in the
order it pushes them. -/
def Payload.batchKeys : Payload → List BatchKey
  | .directMempool => []
  | .inQuorumStore proofs => proofs
  | .inQuorumStoreWithLimit proofs => proofs
  | .quorumStoreInlineHybrid inlineBatches proofs => inlineBatches ++ proofs
  | .optQuorumStore optBatches proofs => optBatches ++ proofs

/-- `Block` as BlockSchema stores it, with the parts unwind reads: its payload
and the block number it was serialized with. -/
structure Block where
  payload : Option Payload
  blockNumber : Option Nat
  deriving DecidableEq, Repr

/-- `ValueCodec<BlockSchema>::decode_value`: `Block::deserialize` reads the
serialized block number and drops it (`block_number: _`). -/
def Block.decode (b : Block) : Block := { b with blockNumber := none }

/-- The commit info of a ledger info, as the reputation anchor reads it. -/
structure CommitInfo where
  epoch : Nat
  round : Nat
  timestampUsecs : Nat
  nextEpochState : Option Consensus.EpochState
  epochBlockInfo : Option BlockBuffer.EpochBlockInfo
  deriving DecidableEq, Repr

/-- `LedgerInfoWithSignatures` as LedgerInfoSchema stores it, signatures left
out. -/
structure LedgerInfo where
  commitInfo : CommitInfo
  blockNumber : Nat
  blockHash : HashValue
  deriving DecidableEq, Repr

/-- `LedgerInfo::timestamp_usecs`: the timestamp of the block it commits. -/
def LedgerInfo.timestampUsecs (li : LedgerInfo) : Nat := li.commitInfo.timestampUsecs

/-- The column families of `ConsensusDB` that unwind and the reputation
anchor read or write, and the two entries of SingleEntrySchema. -/
structure ConsensusDB where
  block : SortedStore EpochKey Block
  qc : SortedStore EpochKey Consensus.QuorumCert
  blockNumber : SortedStore EpochKey Nat
  ledgerInfo : SortedStore Nat LedgerInfo
  epochByBlockNumber : SortedStore Nat Nat
  randomness : SortedStore Nat (List UInt8)
  lastVote : Option (List UInt8)
  highest2ChainTimeoutCert : Option (List UInt8)

namespace ConsensusDB

/-- `get_max_epoch`: the epoch of the last BlockSchema key, and 1 when there
is none. -/
def getMaxEpoch (db : ConsensusDB) : Nat :=
  match db.block.last? with
  | some (key, _) => (ofLex key).1
  | none => 1

theorem epoch_le_getMaxEpoch (db : ConsensusDB) {e : EpochKey × Block}
    (he : e ∈ db.block.entries) : (ofLex e.1).1 ≤ db.getMaxEpoch := by
  unfold getMaxEpoch
  cases hlast : db.block.last? with
  | none =>
      rw [SortedStore.last?_eq_none_iff] at hlast
      rw [hlast] at he
      cases he
  | some last =>
      obtain ⟨key, b⟩ := last
      have hle : e.1 ≤ key := SortedStore.le_of_last? hlast e he
      rcases Prod.Lex.le_iff.mp hle with hlt | ⟨heq, -⟩
      · exact le_of_lt hlt
      · exact le_of_eq heq

end ConsensusDB

end GravitySdk.ConsensusDb
