/- The batch store of the quorum store.
   digest: The quota manager of each batch author, the cache of persisted
   batches with its expiry heap, and the calls that charge and refund quota:
   save and insert_to_cache, which charge a batch before they refund the entry
   it replaces, and the expiry of the certified time. -/

import Mathlib
import GravitySdk.QuorumStore.Types
import GravitySdk.Lib.SortedStore
import GravitySdk.Lib.Transition

set_option autoImplicit false
set_option relaxedAutoImplicit false

namespace GravitySdk.QuorumStore

open GravitySdk.Lib
open GravitySdk.Consensus

/-!
`BatchStore` also holds the database behind the cache, the validator signer
and the persist subscribers, channels that `clear_expired_payload` drops for
the keys it removes and that nothing modelled reads: they are left out, and so
is the fail point of `save`, which exists only in tests.  The `DashMap`s are
maps.  The order in which a `HashSet` is iterated is not fixed by the code: it
is a parameter of the calls that iterate one.
-/

/-- `QuotaManager`. -/
structure QuotaManager where
  memoryBalance : Nat
  dbBalance : Nat
  batchBalance : Nat
  memoryQuota : Nat
  dbQuota : Nat
  batchQuota : Nat
  deriving DecidableEq, Repr

/-- The errors of the batch store, with what their messages print. -/
inductive BatchStoreError where
  /-- "Batch quota exceeded " -/
  | batchQuotaExceeded
  /-- "Storage quota exceeded " -/
  | storageQuotaExceeded
  /-- "Incorrect expiration {} in epoch {}, last committed timestamp {}" -/
  | incorrectExpiration (expiration epoch lastCommittedTimestamp : Nat)
  deriving DecidableEq, Repr

/-- `types::BatchKey`: an epoch and a digest. -/
structure BatchKey where
  epoch : Nat
  digest : HashValue
  deriving DecidableEq, Repr

namespace QuotaManager

/-- `QuotaManager::new`; `none` is the panic of its assertion. -/
def new (dbQuota memoryQuota batchQuota : Nat) : Option QuotaManager :=
  if dbQuota ≥ memoryQuota then
    some ⟨memoryQuota, dbQuota, batchQuota, memoryQuota, dbQuota, batchQuota⟩
  else none

/-- `update_quota`: charge one batch and its bytes to the database, and to
memory as well when they fit there. -/
def updateQuota (q : QuotaManager) (numBytes : Nat) : Except BatchStoreError (QuotaManager × StorageMode) :=
  if q.batchBalance = 0 then .error .batchQuotaExceeded
  else if q.dbBalance ≥ numBytes then
    let q := { q with batchBalance := q.batchBalance - 1, dbBalance := q.dbBalance - numBytes }
    if q.memoryBalance ≥ numBytes then
      .ok ({ q with memoryBalance := q.memoryBalance - numBytes }, .memoryAndPersisted)
    else .ok (q, .persistedOnly)
  else .error .storageQuotaExceeded

/-- `assert_quota`; `none` is the panic. -/
def assertQuota (balance toFree quota : Nat) : Option Unit :=
  if balance + toFree ≤ quota then some () else none

/-- `free_quota`: refund one batch and its bytes, to memory as well when the
storage mode says so. -/
def freeQuota (q : QuotaManager) (numBytes : Nat) (storageMode : StorageMode) : Option QuotaManager := do
  assertQuota q.batchBalance 1 q.batchQuota
  let q := { q with batchBalance := q.batchBalance + 1 }
  assertQuota q.dbBalance numBytes q.dbQuota
  let q := { q with dbBalance := q.dbBalance + numBytes }
  if storageMode = .memoryAndPersisted then
    assertQuota q.memoryBalance numBytes q.memoryQuota
    pure { q with memoryBalance := q.memoryBalance + numBytes }
  else pure q

end QuotaManager

/-- `BatchStore`. -/
structure BatchStore where
  epoch : Nat
  lastCertifiedTime : Nat
  dbCache : SortedStore HashValue PersistedValue
  peerQuota : SortedStore Author QuotaManager
  expirations : TimeExpirations HashValue
  memoryQuota : Nat
  dbQuota : Nat
  batchQuota : Nat

namespace BatchStore

/-- `BatchStore::new`, with the cache initialisation it skips. -/
def new (epoch lastCertifiedTime memoryQuota dbQuota batchQuota : Nat) : BatchStore :=
  ⟨epoch, lastCertifiedTime, .empty, .empty, .new, memoryQuota, dbQuota, batchQuota⟩

variable (bs : BatchStore)

/-- The quota manager of an author after `update_quota` or `free_quota`. -/
def withQuota (author : Author) (q : QuotaManager) : BatchStore :=
  { bs with peerQuota := bs.peerQuota.insert author q }

/-- `BatchStore::free_quota`: the refund of a cached value to its author's
manager; `none` is the panic of the `expect` or of an assertion. -/
def freeQuota (value : PersistedValue) : Option BatchStore := do
  let quotaManager ← bs.peerQuota.get value.author
  let quotaManager ← quotaManager.freeQuota value.numBytes value.payloadStorageMode
  pure (bs.withQuota value.author quotaManager)

/-- `entry(author).or_insert(QuotaManager::new(..))`: the argument is built,
and its assertion checked, on every call. -/
def quotaManagerOf (author : Author) : Option QuotaManager := do
  let fresh ← QuotaManager.new bs.dbQuota bs.memoryQuota bs.batchQuota
  pure ((bs.peerQuota.get author).getD fresh)

/-- What `insert_to_cache` stores: the info alone when only the database has
room for the payload. -/
def valueToBeStored (value : PersistedValue) (storageMode : StorageMode) : PersistedValue :=
  if storageMode = .persistedOnly then ⟨value.info, none⟩ else value

/-- Whether the cache holds the digest with an expiration at least the
value's. -/
def holdsLater (value : PersistedValue) : Bool :=
  match bs.dbCache.get value.digest with
  | some entry => decide (entry.expiration ≥ value.expiration)
  | none => false

/-- `insert_to_cache`: `Ok(false)` for a digest already held with an
expiration as late; an error for an exceeded quota, which keeps the quota
manager that `or_insert` created; otherwise the value charged, cached in place
of the entry of its digest, that entry refunded, and its expiry recorded.
`none` is a panic. -/
def insertToCache (value : PersistedValue) : Option (BatchStore × Except BatchStoreError Bool) :=
  if bs.holdsLater value then some (bs, .ok false)
  else do
    let quotaManager ← bs.quotaManagerOf value.author
    match quotaManager.updateQuota value.numBytes with
    | .error e => pure (bs.withQuota value.author quotaManager, .error e)
    | .ok (charged, storageMode) =>
        let stored := { bs.withQuota value.author charged with
          dbCache := bs.dbCache.insert value.digest (valueToBeStored value storageMode) }
        let refunded ← match bs.dbCache.get value.digest with
          | some prevValue => stored.freeQuota prevValue
          | none => pure stored
        pure ({ refunded with expirations := refunded.expirations.addItem value.digest value.expiration }, .ok true)

/-- `save`: values that expire by the last certified time are refused. -/
def save (value : PersistedValue) : Option (BatchStore × Except BatchStoreError Bool) :=
  if value.expiration > bs.lastCertifiedTime then bs.insertToCache value
  else some (bs, .error (.incorrectExpiration value.expiration bs.epoch bs.lastCertifiedTime))

/-- One digest of the expired set in `clear_expired_payload`: its entry is
removed and refunded if its current expiration is due, and kept if a later
value extended it; `none` is a panic, the `unreachable!` of a digest not
cached among them. -/
def clearExpired (certifiedTime : Nat) (h : HashValue) : Option (BatchStore × Option BatchKey) :=
  match bs.dbCache.get h with
  | none => none
  | some entry =>
      if entry.expiration ≤ certifiedTime then
        let removed := { bs with dbCache := bs.dbCache.erase h }
        (removed.freeQuota entry).map fun freed => (freed, some ⟨entry.epoch, h⟩)
      else some (bs, none)

/-- The loop of `clear_expired_payload` over the expired digests. -/
def clearExpiredLoop (certifiedTime : Nat) : BatchStore → List HashValue → Option (BatchStore × List BatchKey)
  | bs, [] => some (bs, [])
  | bs, h :: hs =>
      match bs.clearExpired certifiedTime h with
      | none => none
      | some (bs, removed) => (clearExpiredLoop certifiedTime bs hs).map fun r => (r.1, removed.toList ++ r.2)

/-- `clear_expired_payload`, the expired digests iterated in the order
`hashOrder` gives them. -/
def clearExpiredPayload (hashOrder : List HashValue → List HashValue) (certifiedTime : Nat) :
    Option (BatchStore × List BatchKey) :=
  let expired := bs.expirations.expire certifiedTime
  clearExpiredLoop certifiedTime { bs with expirations := expired.2 } (hashOrder expired.1)

/-- `update_certified_timestamp`: the time only grows (`fetch_max`), and a
decreasing one is the panic of its assertion. -/
def updateCertifiedTimestamp (hashOrder : List HashValue → List HashValue) (certifiedTime : Nat) :
    Option BatchStore :=
  let prevTime := bs.lastCertifiedTime
  let bs := { bs with lastCertifiedTime := max prevTime certifiedTime }
  if prevTime ≤ certifiedTime then (bs.clearExpiredPayload hashOrder certifiedTime).map Prod.fst
  else none

/-- The calls on the batch store. -/
inductive Call where
  | save (value : PersistedValue)
  | insertToCache (value : PersistedValue)
  | updateCertifiedTimestamp (certifiedTime : Nat) (hashOrder : List HashValue → List HashValue)
  | clearExpiredPayload (certifiedTime : Nat) (hashOrder : List HashValue → List HashValue)

/-- What a call returns. -/
inductive Reply where
  | inserted (result : Except BatchStoreError Bool)
  | cleared (keys : List BatchKey)
  | updated
  deriving DecidableEq, Repr

def step : Call → Option (BatchStore × Reply)
  | .save value => (bs.save value).map fun r => (r.1, .inserted r.2)
  | .insertToCache value => (bs.insertToCache value).map fun r => (r.1, .inserted r.2)
  | .updateCertifiedTimestamp certifiedTime hashOrder =>
      (bs.updateCertifiedTimestamp hashOrder certifiedTime).map fun bs => (bs, .updated)
  | .clearExpiredPayload certifiedTime hashOrder =>
      (bs.clearExpiredPayload hashOrder certifiedTime).map fun r => (r.1, .cleared r.2)

section Spec

variable {bs : BatchStore}

@[simp] theorem withQuota_dbCache (author : Author) (q : QuotaManager) :
    (bs.withQuota author q).dbCache = bs.dbCache := rfl

@[simp] theorem withQuota_expirations (author : Author) (q : QuotaManager) :
    (bs.withQuota author q).expirations = bs.expirations := rfl

@[simp] theorem withQuota_quotas (author : Author) (q : QuotaManager) :
    (bs.withQuota author q).memoryQuota = bs.memoryQuota ∧ (bs.withQuota author q).dbQuota = bs.dbQuota ∧
      (bs.withQuota author q).batchQuota = bs.batchQuota := ⟨rfl, rfl, rfl⟩

theorem get_peerQuota_withQuota (author author' : Author) (q : QuotaManager) :
    (bs.withQuota author q).peerQuota.get author' = if author' = author then some q else bs.peerQuota.get author' :=
  SortedStore.get_insert _ _ _ _

theorem freeQuota_eq_some {value : PersistedValue} {bs' : BatchStore} (h : bs.freeQuota value = some bs') :
    ∃ q q', bs.peerQuota.get value.author = some q ∧
      q.freeQuota value.numBytes value.payloadStorageMode = some q' ∧ bs' = bs.withQuota value.author q' := by
  simp only [freeQuota, Option.bind_eq_bind, Option.bind_eq_some_iff, Option.pure_def, Option.some.injEq] at h
  obtain ⟨q, found, q', refunded, rfl⟩ := h
  exact ⟨q, q', found, refunded, rfl⟩

theorem freeQuota_of_found {value : PersistedValue} {q q' : QuotaManager}
    (found : bs.peerQuota.get value.author = some q)
    (refunded : q.freeQuota value.numBytes value.payloadStorageMode = some q') :
    bs.freeQuota value = some (bs.withQuota value.author q') := by
  simp [freeQuota, found, refunded]

theorem quotaManagerOf_eq_some {author : Author} {q : QuotaManager} :
    bs.quotaManagerOf author = some q ↔ bs.memoryQuota ≤ bs.dbQuota ∧
      q = (bs.peerQuota.get author).getD
        ⟨bs.memoryQuota, bs.dbQuota, bs.batchQuota, bs.memoryQuota, bs.dbQuota, bs.batchQuota⟩ := by
  unfold quotaManagerOf QuotaManager.new
  by_cases fits : bs.dbQuota ≥ bs.memoryQuota
  · simp [fits, eq_comm]
  · simp [fits]

theorem insertToCache_eq_some {value : PersistedValue} {bs' : BatchStore} {result : Except BatchStoreError Bool}
    (h : bs.insertToCache value = some (bs', result)) :
    (bs.holdsLater value = true ∧ bs' = bs ∧ result = .ok false) ∨
      (bs.holdsLater value = false ∧ ∃ q, bs.quotaManagerOf value.author = some q ∧
        ((∃ e, q.updateQuota value.numBytes = .error e ∧ bs' = bs.withQuota value.author q ∧ result = .error e) ∨
          ∃ charged storageMode refunded, q.updateQuota value.numBytes = .ok (charged, storageMode) ∧
            (match bs.dbCache.get value.digest with
              | some prevValue => ({ bs.withQuota value.author charged with
                  dbCache := bs.dbCache.insert value.digest (valueToBeStored value storageMode) }).freeQuota prevValue
              | none => some { bs.withQuota value.author charged with
                  dbCache := bs.dbCache.insert value.digest (valueToBeStored value storageMode) }) = some refunded ∧
            bs' = { refunded with expirations := refunded.expirations.addItem value.digest value.expiration } ∧
            result = .ok true)) := by
  unfold insertToCache at h
  by_cases later : bs.holdsLater value
  · rw [if_pos later] at h
    cases h
    exact .inl ⟨later, rfl, rfl⟩
  · rw [if_neg later] at h
    simp only [Option.bind_eq_bind, Option.bind_eq_some_iff] at h
    obtain ⟨q, found, h⟩ := h
    refine .inr ⟨by simpa using later, q, found, ?_⟩
    cases charge : q.updateQuota value.numBytes with
    | error e =>
        rw [charge] at h
        cases h
        exact .inl ⟨e, rfl, rfl, rfl⟩
    | ok r =>
        obtain ⟨charged, storageMode⟩ := r
        rw [charge] at h
        refine .inr ⟨charged, storageMode, ?_⟩
        -- the entry replaced, if any, is refunded after the charge
        cases prev : bs.dbCache.get value.digest with
        | none =>
            rw [prev] at h
            simp only [Option.pure_def, Option.bind_some, Option.some.injEq, Prod.mk.injEq] at h
            obtain ⟨rfl, rfl⟩ := h
            exact ⟨_, rfl, rfl, rfl, rfl⟩
        | some prevValue =>
            rw [prev] at h
            simp only [Option.pure_def, Option.bind_eq_some_iff, Option.some.injEq, Prod.mk.injEq] at h
            obtain ⟨refunded, hrefund, rfl, rfl⟩ := h
            exact ⟨refunded, rfl, hrefund, rfl, rfl⟩

theorem save_eq_some {value : PersistedValue} {bs' : BatchStore} {result : Except BatchStoreError Bool}
    (h : bs.save value = some (bs', result)) :
    bs.insertToCache value = some (bs', result) ∨
      (bs' = bs ∧ result = .error (.incorrectExpiration value.expiration bs.epoch bs.lastCertifiedTime)) := by
  unfold save at h
  split at h
  · exact .inl h
  · cases h
    exact .inr ⟨rfl, rfl⟩

section Step

variable {bs' : BatchStore} {reply : Reply}

theorem step_save_eq_some {value : PersistedValue} (h : bs.step (.save value) = some (bs', reply)) :
    ∃ result, bs.save value = some (bs', result) ∧ reply = .inserted result := by
  simp only [step, Option.map_eq_some_iff, Prod.mk.injEq, Prod.exists] at h
  obtain ⟨_, result, saved, rfl, rfl⟩ := h
  exact ⟨result, saved, rfl⟩

theorem step_insertToCache_eq_some {value : PersistedValue} (h : bs.step (.insertToCache value) = some (bs', reply)) :
    ∃ result, bs.insertToCache value = some (bs', result) ∧ reply = .inserted result := by
  simp only [step, Option.map_eq_some_iff, Prod.mk.injEq, Prod.exists] at h
  obtain ⟨_, result, inserted, rfl, rfl⟩ := h
  exact ⟨result, inserted, rfl⟩

theorem step_updateCertifiedTimestamp_eq_some {certifiedTime : Nat} {hashOrder : List HashValue → List HashValue}
    (h : bs.step (.updateCertifiedTimestamp certifiedTime hashOrder) = some (bs', reply)) :
    bs.updateCertifiedTimestamp hashOrder certifiedTime = some bs' ∧ reply = .updated := by
  simp only [step, Option.map_eq_some_iff, Prod.mk.injEq] at h
  obtain ⟨_, updated, rfl, rfl⟩ := h
  exact ⟨updated, rfl⟩

theorem step_clearExpiredPayload_eq_some {certifiedTime : Nat} {hashOrder : List HashValue → List HashValue}
    (h : bs.step (.clearExpiredPayload certifiedTime hashOrder) = some (bs', reply)) :
    ∃ keys, bs.clearExpiredPayload hashOrder certifiedTime = some (bs', keys) ∧ reply = .cleared keys := by
  simp only [step, Option.map_eq_some_iff, Prod.mk.injEq, Prod.exists] at h
  obtain ⟨_, keys, cleared, rfl, rfl⟩ := h
  exact ⟨keys, cleared, rfl⟩

end Step

theorem updateCertifiedTimestamp_eq_some {certifiedTime : Nat} {hashOrder : List HashValue → List HashValue}
    {bs' : BatchStore} (h : bs.updateCertifiedTimestamp hashOrder certifiedTime = some bs') :
    bs.lastCertifiedTime ≤ certifiedTime ∧ ∃ keys,
      ({ bs with lastCertifiedTime := certifiedTime } : BatchStore).clearExpiredPayload hashOrder certifiedTime =
        some (bs', keys) := by
  simp only [updateCertifiedTimestamp] at h
  split at h
  · rename_i later
    rw [max_eq_right later] at h
    obtain ⟨⟨last, keys⟩, cleared, rfl⟩ := Option.map_eq_some_iff.mp h
    exact ⟨later, keys, cleared⟩
  · cases h

end Spec

end BatchStore

namespace QuotaManager

variable {q q' : QuotaManager} {numBytes : Nat}

theorem updateQuota_eq_ok {storageMode : StorageMode}
    (h : q.updateQuota numBytes = .ok (q', storageMode)) :
    q'.batchBalance + 1 = q.batchBalance ∧ q'.dbBalance + numBytes = q.dbBalance ∧
      q'.memoryBalance + (if storageMode = .memoryAndPersisted then numBytes else 0) = q.memoryBalance ∧
      q'.memoryQuota = q.memoryQuota ∧ q'.dbQuota = q.dbQuota ∧ q'.batchQuota = q.batchQuota := by
  unfold updateQuota at h
  by_cases empty : q.batchBalance = 0
  · rw [if_pos empty] at h
    cases h
  · rw [if_neg empty] at h
    by_cases room : q.dbBalance ≥ numBytes
    · rw [if_pos room] at h
      dsimp only at h
      by_cases inMemory : q.memoryBalance ≥ numBytes
      · rw [if_pos inMemory] at h
        cases h
        refine ⟨?_, ?_, ?_, rfl, rfl, rfl⟩ <;> simp only [if_true] <;> omega
      · rw [if_neg inMemory] at h
        cases h
        refine ⟨?_, ?_, ?_, rfl, rfl, rfl⟩ <;> simp only [reduceCtorEq, if_false] <;> omega
    · rw [if_neg room] at h
      cases h

theorem freeQuota_eq_some {storageMode : StorageMode} (h : q.freeQuota numBytes storageMode = some q') :
    q'.batchBalance = q.batchBalance + 1 ∧ q'.dbBalance = q.dbBalance + numBytes ∧
      q'.memoryBalance = q.memoryBalance + (if storageMode = .memoryAndPersisted then numBytes else 0) ∧
      q'.memoryQuota = q.memoryQuota ∧ q'.dbQuota = q.dbQuota ∧ q'.batchQuota = q.batchQuota := by
  unfold freeQuota assertQuota at h
  simp only [Option.bind_eq_bind, Option.pure_def] at h
  by_cases batch : q.batchBalance + 1 ≤ q.batchQuota
  · by_cases db : q.dbBalance + numBytes ≤ q.dbQuota
    · cases storageMode
      · simp [batch, db] at h
        subst h
        simp
      · by_cases memory : q.memoryBalance + numBytes ≤ q.memoryQuota
        · simp [batch, db, memory] at h
          subst h
          simp
        · simp [batch, db, memory] at h
    · simp [batch, db] at h
  · simp [batch] at h

theorem freeQuota_isSome {storageMode : StorageMode} (batch : q.batchBalance + 1 ≤ q.batchQuota)
    (db : q.dbBalance + numBytes ≤ q.dbQuota)
    (memory : storageMode = .memoryAndPersisted → q.memoryBalance + numBytes ≤ q.memoryQuota) :
    (q.freeQuota numBytes storageMode).isSome := by
  unfold freeQuota assertQuota
  cases storageMode
  · simp [batch, db]
  · simp [batch, db, memory rfl]

end QuotaManager

end GravitySdk.QuorumStore
