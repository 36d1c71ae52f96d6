/- The data of the quorum store.
   digest: Batch ids and batch infos, transactions and their summaries,
   persisted values with the storage mode their payload gives, and the expiry
   heap that the batch store and the proof queue both keep. -/

import Mathlib
import GravitySdk.Consensus.Types

set_option autoImplicit false
set_option relaxedAutoImplicit false

namespace GravitySdk.QuorumStore

open GravitySdk.Consensus

/-- `BatchId`: the number of a batch in its author's run, and the nonce of
that run. -/
structure BatchId where
  id : Nat
  nonce : Nat
  deriving DecidableEq, Repr

/-- `BatchInfo`. -/
structure BatchInfo where
  author : Author
  batchId : BatchId
  epoch : Nat
  expiration : Nat
  digest : HashValue
  numTxns : Nat
  numBytes : Nat
  gasBucketStart : Nat
  deriving DecidableEq, Repr

/-- `TxnSummaryWithExpiration`. -/
structure TxnSummaryWithExpiration where
  sender : Author
  sequenceNumber : Nat
  expirationTimestampSecs : Nat
  hash : HashValue
  deriving DecidableEq, Repr

/-- A `SignedTransaction`, by the fields the quorum store reads. -/
structure SignedTransaction where
  sender : Author
  sequenceNumber : Nat
  expirationTimestampSecs : Nat
  committedHash : HashValue
  deriving DecidableEq, Repr

/-- `StorageMode`. -/
inductive StorageMode where
  | persistedOnly
  | memoryAndPersisted
  deriving DecidableEq, Repr

/-- `PersistedValue`: a batch info and, unless only the database holds it, its
payload. -/
structure PersistedValue where
  info : BatchInfo
  maybePayload : Option (List SignedTransaction)
  deriving DecidableEq, Repr

namespace PersistedValue

def author (value : PersistedValue) : Author := value.info.author
def epoch (value : PersistedValue) : Nat := value.info.epoch
def expiration (value : PersistedValue) : Nat := value.info.expiration
def digest (value : PersistedValue) : HashValue := value.info.digest
def numBytes (value : PersistedValue) : Nat := value.info.numBytes

/-- `payload_storage_mode`: read off the payload, not off the quota charged. -/
def payloadStorageMode (value : PersistedValue) : StorageMode :=
  match value.maybePayload with
  | some _ => .memoryAndPersisted
  | none => .persistedOnly

end PersistedValue

/-- `TimeExpirations`: items with their expiry times.  The binary heap is only
ever read by `expire`, which pops every item due, so its contents as a list in
any order are all the model keeps. -/
structure TimeExpirations (ι : Type) where
  expiries : List (Nat × ι)
  deriving Repr

namespace TimeExpirations

variable {ι : Type}

def new : TimeExpirations ι := ⟨[]⟩

/-- `add_item`. -/
def addItem (e : TimeExpirations ι) (item : ι) (expiryTime : Nat) : TimeExpirations ι :=
  ⟨(expiryTime, item) :: e.expiries⟩

@[simp] theorem expiries_addItem (e : TimeExpirations ι) (item : ι) (expiryTime : Nat) :
    (e.addItem item expiryTime).expiries = (expiryTime, item) :: e.expiries := rfl

/-- `expire`: the items due by the certified time, each once (the `HashSet`
returned), and the heap of the items still to come. -/
def expire [DecidableEq ι] (e : TimeExpirations ι) (certifiedTime : Nat) : List ι × TimeExpirations ι :=
  (((e.expiries.filter fun x => x.1 ≤ certifiedTime).map Prod.snd).dedup,
    ⟨e.expiries.filter fun x => ¬x.1 ≤ certifiedTime⟩)

variable [DecidableEq ι] {e : TimeExpirations ι} {certifiedTime : Nat}

theorem mem_expire {item : ι} :
    item ∈ (e.expire certifiedTime).1 ↔ ∃ t, (t, item) ∈ e.expiries ∧ t ≤ certifiedTime := by
  simp [expire]

theorem nodup_expire : (e.expire certifiedTime).1.Nodup :=
  List.nodup_dedup _

theorem mem_expire_rest {x : Nat × ι} :
    x ∈ (e.expire certifiedTime).2.expiries ↔ x ∈ e.expiries ∧ certifiedTime < x.1 := by
  simp [expire]

end TimeExpirations

end GravitySdk.QuorumStore
