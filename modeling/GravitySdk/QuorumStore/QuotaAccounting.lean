/- Quota accounting of the batch store over whole runs.
   digest: For every author, the balance its manager has left plus what its
   cached batches cost is the quota, for batches, database bytes and memory
   bytes; every cached digest has its expiry recorded, and every recorded
   expiry belongs to a cached digest at least as late.  Hence no refund
   panics, a failed insertion changes nothing, and the expiry of a certified
   time removes exactly the entries due. -/

import Mathlib
import GravitySdk.QuorumStore.BatchStore

set_option autoImplicit false
set_option relaxedAutoImplicit false

namespace GravitySdk.QuorumStore.BatchStore

open GravitySdk.Lib
open GravitySdk.Lib.Transition
open GravitySdk.Consensus

/-- The manager an author's balances are read from: its own, or the fresh one
that `insert_to_cache` would create for it. -/
def balanceOf (bs : BatchStore) (author : Author) : QuotaManager :=
  (bs.peerQuota.get author).getD ⟨bs.memoryQuota, bs.dbQuota, bs.batchQuota, bs.memoryQuota, bs.dbQuota, bs.batchQuota⟩

/-- What an author's cached entries cost of a quota. -/
def chargedTo (bs : BatchStore) (cost : PersistedValue → Nat) (author : Author) : Nat :=
  (bs.dbCache.entries.map fun e => if e.2.author = author then cost e.2 else 0).sum

/-- What a cached value holds of memory: its bytes, when it keeps its payload. -/
def memoryCost (value : PersistedValue) : Nat :=
  match value.payloadStorageMode with
  | .memoryAndPersisted => value.numBytes
  | .persistedOnly => 0

/-- A quota that the managers keep: a manager's balance and quota of it, and
what a cached value costs of it. -/
structure Quota where
  balance : QuotaManager → Nat
  quota : QuotaManager → Nat
  cost : PersistedValue → Nat

namespace Quota

def batches : Quota := ⟨QuotaManager.batchBalance, QuotaManager.batchQuota, fun _ => 1⟩
def bytes : Quota := ⟨QuotaManager.dbBalance, QuotaManager.dbQuota, PersistedValue.numBytes⟩
def memory : Quota := ⟨QuotaManager.memoryBalance, QuotaManager.memoryQuota, memoryCost⟩

end Quota

/-- What an entry taken out of the cache, and not refunded yet, costs an
author. -/
def owedBy (cost : PersistedValue → Nat) (owed : Option PersistedValue) (author : Author) : Nat :=
  match owed with
  | some value => if value.author = author then cost value else 0
  | none => 0

/-- The ledger of a quota: for every author, the balance left, what its cached
entries cost and what an entry taken out costs add up to the quota. -/
def Balanced (r : Quota) (bs : BatchStore) (owed : Option PersistedValue) : Prop :=
  ∀ author, r.balance (bs.balanceOf author) + bs.chargedTo r.cost author + owedBy r.cost owed author =
    r.quota (bs.balanceOf author)

/-- Every manager was created with the store's quotas. -/
def QuotasKept (bs : BatchStore) : Prop :=
  ∀ author q, bs.peerQuota.get author = some q →
    q.memoryQuota = bs.memoryQuota ∧ q.dbQuota = bs.dbQuota ∧ q.batchQuota = bs.batchQuota

/-- The expiry heap indexes the cache: every cached digest has its current
expiration recorded, and every recorded expiry belongs to a cached digest that
expires no earlier. -/
structure Indexed (bs : BatchStore) : Prop where
  dueRecorded : ∀ digest value, bs.dbCache.get digest = some value →
    (value.expiration, digest) ∈ bs.expirations.expiries
  recordedCached : ∀ t digest, (t, digest) ∈ bs.expirations.expiries →
    ∃ value, bs.dbCache.get digest = some value ∧ t ≤ value.expiration

/-- The ledgers of the three quotas, owing the same entry. -/
structure Ledgers (bs : BatchStore) (owed : Option PersistedValue) : Prop where
  batches : Balanced .batches bs owed
  bytes : Balanced .bytes bs owed
  memory : Balanced .memory bs owed

/-- What every store reached by inserting values that carry their payloads
keeps. -/
structure Accounted (bs : BatchStore) : Prop where
  quotasKept : QuotasKept bs
  ledgers : Ledgers bs none
  indexed : Indexed bs

section Ledger

variable {bs : BatchStore} {cost : PersistedValue → Nat}

theorem balanceOf_withQuota (author author' : Author) (q : QuotaManager) :
    (bs.withQuota author q).balanceOf author' = if author' = author then q else bs.balanceOf author' := by
  unfold balanceOf
  rw [get_peerQuota_withQuota]
  by_cases same : author' = author <;> simp [same, withQuota]

theorem chargedTo_congr {bs' : BatchStore} (same : bs'.dbCache = bs.dbCache) (author : Author) :
    bs'.chargedTo cost author = bs.chargedTo cost author := by
  unfold chargedTo
  rw [same]

theorem balanceOf_of_found {author : Author} {q : QuotaManager} (found : bs.peerQuota.get author = some q) :
    bs.balanceOf author = q := by
  simp [balanceOf, found]

theorem chargedTo_insert {bs' : BatchStore} {digest : HashValue} {w : PersistedValue}
    (cached : bs'.dbCache = bs.dbCache.insert digest w) (author : Author) :
    bs'.chargedTo cost author + owedBy cost (bs.dbCache.get digest) author =
      bs.chargedTo cost author + (if w.author = author then cost w else 0) := by
  have sum := SortedStore.sum_insert bs.dbCache digest w fun e => if e.2.author = author then cost e.2 else 0
  unfold chargedTo owedBy
  rw [cached]
  cases found : bs.dbCache.get digest with
  | none =>
      rw [found] at sum
      simpa using sum
  | some old =>
      rw [found] at sum
      simpa using sum

theorem chargedTo_erase {bs' : BatchStore} {digest : HashValue} (cached : bs'.dbCache = bs.dbCache.erase digest)
    (author : Author) :
    bs'.chargedTo cost author + owedBy cost (bs.dbCache.get digest) author = bs.chargedTo cost author := by
  have sum := SortedStore.sum_erase bs.dbCache digest fun e => if e.2.author = author then cost e.2 else 0
  unfold chargedTo owedBy
  rw [cached]
  cases found : bs.dbCache.get digest with
  | none =>
      rw [found] at sum
      simpa using sum
  | some old =>
      rw [found] at sum
      simpa using sum

theorem cost_le_chargedTo (cost : PersistedValue → Nat) {digest : HashValue} {value : PersistedValue}
    (cached : bs.dbCache.get digest = some value) :
    cost value ≤ bs.chargedTo cost value.author := by
  unfold chargedTo
  have mem : (digest, value) ∈ bs.dbCache.entries := SortedStore.mem_entries_of_get cached
  have term : (if value.author = value.author then cost value else 0) ∈
      bs.dbCache.entries.map fun e => if e.2.author = value.author then cost e.2 else 0 :=
    List.mem_map.mpr ⟨_, mem, rfl⟩
  simpa using List.le_sum_of_mem term

end Ledger

section Balanced

variable {r : Quota} {bs bs' : BatchStore}

theorem Balanced.charge (balanced : Balanced r bs none) {author : Author} {q' : QuotaManager}
    {digest : HashValue} {w : PersistedValue} (cached : bs'.dbCache = bs.dbCache.insert digest w)
    (balances : ∀ a, bs'.balanceOf a = if a = author then q' else bs.balanceOf a) (own : w.author = author)
    (charged : r.balance q' + r.cost w = r.balance (bs.balanceOf author))
    (sameQuota : r.quota q' = r.quota (bs.balanceOf author)) :
    Balanced r bs' (bs.dbCache.get digest) := by
  intro a
  have moved : bs'.chargedTo r.cost a + owedBy r.cost (bs.dbCache.get digest) a =
      bs.chargedTo r.cost a + (if w.author = a then r.cost w else 0) := chargedTo_insert cached a
  have before := balanced a
  simp only [owedBy, Nat.add_zero] at before
  rw [balances a]
  by_cases mine : a = author
  · subst mine
    rw [if_pos rfl, sameQuota]
    rw [if_pos own] at moved
    omega
  · rw [if_neg mine]
    have notMine : ¬w.author = a := fun same => mine (own ▸ same).symm
    rw [if_neg notMine] at moved
    omega

theorem Balanced.erase (balanced : Balanced r bs none) {digest : HashValue}
    (cached : bs'.dbCache = bs.dbCache.erase digest) (balances : ∀ a, bs'.balanceOf a = bs.balanceOf a) :
    Balanced r bs' (bs.dbCache.get digest) := by
  intro a
  have moved : bs'.chargedTo r.cost a + owedBy r.cost (bs.dbCache.get digest) a = bs.chargedTo r.cost a :=
    chargedTo_erase cached a
  have before := balanced a
  simp only [owedBy, Nat.add_zero] at before
  rw [balances a]
  omega

theorem Balanced.refund {value : PersistedValue} (balanced : Balanced r bs (some value))
    (h : bs.freeQuota value = some bs')
    (refunds : ∀ q q', q.freeQuota value.numBytes value.payloadStorageMode = some q' →
      r.balance q' = r.balance q + r.cost value ∧ r.quota q' = r.quota q) :
    Balanced r bs' none := by
  obtain ⟨q, q', found, refunded, rfl⟩ := freeQuota_eq_some h
  obtain ⟨back, sameQuota⟩ := refunds q q' refunded
  intro a
  have before := balanced a
  simp only [owedBy] at before
  simp only [owedBy, Nat.add_zero, balanceOf_withQuota, chargedTo_congr (withQuota_dbCache _ _) a]
  by_cases mine : a = value.author
  · subst mine
    rw [if_pos rfl]
    rw [if_pos rfl, balanceOf_of_found found] at before
    omega
  · rw [if_neg mine]
    rw [if_neg (Ne.symm mine)] at before
    omega

theorem Balanced.managed (balanced : Balanced .batches bs none) {digest : HashValue}
    {value : PersistedValue} (cached : bs.dbCache.get digest = some value) :
    (bs.peerQuota.get value.author).isSome := by
  cases found : bs.peerQuota.get value.author with
  | some q => rfl
  | none =>
      have used : 1 ≤ bs.chargedTo (fun _ => 1) value.author := cost_le_chargedTo (fun _ => 1) cached
      have ledger := balanced value.author
      simp only [Quota.batches, owedBy, balanceOf, found, Option.getD_none, Nat.add_zero] at ledger
      omega

end Balanced

section Quotas

variable {q q' : QuotaManager} {value : PersistedValue}

theorem info_valueToBeStored (storageMode : StorageMode) : (valueToBeStored value storageMode).info = value.info := by
  unfold valueToBeStored
  split <;> rfl

theorem memoryCost_valueToBeStored (payload : value.maybePayload.isSome) (storageMode : StorageMode) :
    memoryCost (valueToBeStored value storageMode) =
      if storageMode = .memoryAndPersisted then value.numBytes else 0 := by
  obtain ⟨txns, carried⟩ := Option.isSome_iff_exists.mp payload
  cases storageMode
  · simp [valueToBeStored, memoryCost, PersistedValue.payloadStorageMode]
  · simp [valueToBeStored, memoryCost, PersistedValue.payloadStorageMode, carried, PersistedValue.numBytes]

theorem refunds_batches (h : q.freeQuota value.numBytes value.payloadStorageMode = some q') :
    Quota.batches.balance q' = Quota.batches.balance q + Quota.batches.cost value ∧
      Quota.batches.quota q' = Quota.batches.quota q := by
  obtain ⟨batch, -, -, -, -, same⟩ := QuotaManager.freeQuota_eq_some h
  exact ⟨batch, same⟩

theorem refunds_bytes (h : q.freeQuota value.numBytes value.payloadStorageMode = some q') :
    Quota.bytes.balance q' = Quota.bytes.balance q + Quota.bytes.cost value ∧
      Quota.bytes.quota q' = Quota.bytes.quota q := by
  obtain ⟨-, db, -, -, same, -⟩ := QuotaManager.freeQuota_eq_some h
  exact ⟨db, same⟩

theorem refunds_memory (h : q.freeQuota value.numBytes value.payloadStorageMode = some q') :
    Quota.memory.balance q' = Quota.memory.balance q + Quota.memory.cost value ∧
      Quota.memory.quota q' = Quota.memory.quota q := by
  obtain ⟨-, -, memory, same, -, -⟩ := QuotaManager.freeQuota_eq_some h
  refine ⟨?_, same⟩
  simp only [Quota.memory, memoryCost]
  rw [memory]
  cases value.payloadStorageMode <;> simp

theorem charges_batches {storageMode : StorageMode} (h : q.updateQuota value.numBytes = .ok (q', storageMode)) :
    Quota.batches.balance q' + Quota.batches.cost (valueToBeStored value storageMode) = Quota.batches.balance q ∧
      Quota.batches.quota q' = Quota.batches.quota q := by
  obtain ⟨batch, -, -, -, -, same⟩ := QuotaManager.updateQuota_eq_ok h
  exact ⟨batch, same⟩

theorem charges_bytes {storageMode : StorageMode} (h : q.updateQuota value.numBytes = .ok (q', storageMode)) :
    Quota.bytes.balance q' + Quota.bytes.cost (valueToBeStored value storageMode) = Quota.bytes.balance q ∧
      Quota.bytes.quota q' = Quota.bytes.quota q := by
  obtain ⟨-, db, -, -, same, -⟩ := QuotaManager.updateQuota_eq_ok h
  refine ⟨?_, same⟩
  simpa [Quota.bytes, PersistedValue.numBytes, info_valueToBeStored] using db

theorem charges_memory {storageMode : StorageMode} (payload : value.maybePayload.isSome)
    (h : q.updateQuota value.numBytes = .ok (q', storageMode)) :
    Quota.memory.balance q' + Quota.memory.cost (valueToBeStored value storageMode) = Quota.memory.balance q ∧
      Quota.memory.quota q' = Quota.memory.quota q := by
  obtain ⟨-, -, memory, same, -, -⟩ := QuotaManager.updateQuota_eq_ok h
  refine ⟨?_, same⟩
  simp only [Quota.memory]
  rw [memoryCost_valueToBeStored payload]
  exact memory

end Quotas

section Ledgers

variable {bs bs' : BatchStore}

theorem Ledgers.charge (ledgers : Ledgers bs none) {value : PersistedValue} {q q' : QuotaManager}
    {storageMode : StorageMode} (payload : value.maybePayload.isSome) (own : bs.balanceOf value.author = q)
    (h : q.updateQuota value.numBytes = .ok (q', storageMode))
    (cached : bs'.dbCache = bs.dbCache.insert value.digest (valueToBeStored value storageMode))
    (balances : ∀ a, bs'.balanceOf a = if a = value.author then q' else bs.balanceOf a) :
    Ledgers bs' (bs.dbCache.get value.digest) := by
  have author : (valueToBeStored value storageMode).author = value.author := by
    simp [PersistedValue.author, info_valueToBeStored]
  subst own
  exact ⟨ledgers.batches.charge cached balances author (charges_batches h).1 (charges_batches h).2,
    ledgers.bytes.charge cached balances author (charges_bytes h).1 (charges_bytes h).2,
    ledgers.memory.charge cached balances author (charges_memory payload h).1 (charges_memory payload h).2⟩

theorem Ledgers.erase (ledgers : Ledgers bs none) {digest : HashValue}
    (cached : bs'.dbCache = bs.dbCache.erase digest) (balances : ∀ a, bs'.balanceOf a = bs.balanceOf a) :
    Ledgers bs' (bs.dbCache.get digest) :=
  ⟨ledgers.batches.erase cached balances, ledgers.bytes.erase cached balances,
    ledgers.memory.erase cached balances⟩

theorem Ledgers.refund {value : PersistedValue} (ledgers : Ledgers bs (some value))
    (h : bs.freeQuota value = some bs') : Ledgers bs' none :=
  ⟨ledgers.batches.refund h fun _ _ => refunds_batches, ledgers.bytes.refund h fun _ _ => refunds_bytes,
    ledgers.memory.refund h fun _ _ => refunds_memory⟩

theorem Ledgers.refund_isSome {value : PersistedValue} (ledgers : Ledgers bs (some value))
    (managed : (bs.peerQuota.get value.author).isSome) : ∃ bs', bs.freeQuota value = some bs' := by
  obtain ⟨q, found⟩ := Option.isSome_iff_exists.mp managed
  have batch := ledgers.batches value.author
  have db := ledgers.bytes value.author
  have memory := ledgers.memory value.author
  simp only [owedBy, if_true, balanceOf_of_found found, Quota.batches, Quota.bytes, Quota.memory] at batch db memory
  have fits : (q.freeQuota value.numBytes value.payloadStorageMode).isSome := by
    refine QuotaManager.freeQuota_isSome (by omega) (by omega) fun inMemory => ?_
    simp only [memoryCost, inMemory] at memory
    omega
  obtain ⟨q', refunded⟩ := Option.isSome_iff_exists.mp fits
  exact ⟨_, freeQuota_of_found found refunded⟩

theorem Balanced.congr {r : Quota} {owed : Option PersistedValue} (balanced : Balanced r bs owed)
    (cached : bs'.dbCache = bs.dbCache) (balances : ∀ a, bs'.balanceOf a = bs.balanceOf a) :
    Balanced r bs' owed := by
  intro a
  rw [balances a, chargedTo_congr cached a]
  exact balanced a

theorem Ledgers.congr {owed : Option PersistedValue} (ledgers : Ledgers bs owed)
    (cached : bs'.dbCache = bs.dbCache) (balances : ∀ a, bs'.balanceOf a = bs.balanceOf a) :
    Ledgers bs' owed :=
  ⟨ledgers.batches.congr cached balances, ledgers.bytes.congr cached balances,
    ledgers.memory.congr cached balances⟩

end Ledgers

section Kept

variable {bs bs' : BatchStore}

theorem QuotasKept.withQuota (kept : QuotasKept bs) {author : Author} {q : QuotaManager}
    (quotas : q.memoryQuota = bs.memoryQuota ∧ q.dbQuota = bs.dbQuota ∧ q.batchQuota = bs.batchQuota) :
    QuotasKept (bs.withQuota author q) := by
  intro a q' found
  rw [get_peerQuota_withQuota] at found
  by_cases mine : a = author
  · rw [if_pos mine] at found
    cases found
    exact quotas
  · rw [if_neg mine] at found
    exact kept a q' found

theorem QuotasKept.balanceOf (kept : QuotasKept bs) (author : Author) :
    (bs.balanceOf author).memoryQuota = bs.memoryQuota ∧ (bs.balanceOf author).dbQuota = bs.dbQuota ∧
      (bs.balanceOf author).batchQuota = bs.batchQuota := by
  cases found : bs.peerQuota.get author with
  | some q =>
      rw [balanceOf_of_found found]
      exact kept author q found
  | none => simp [BatchStore.balanceOf, found]

theorem freeQuota_frame {value : PersistedValue} (h : bs.freeQuota value = some bs') :
    bs'.dbCache = bs.dbCache ∧ bs'.expirations = bs.expirations ∧ bs'.memoryQuota = bs.memoryQuota ∧
      bs'.dbQuota = bs.dbQuota ∧ bs'.batchQuota = bs.batchQuota := by
  obtain ⟨_, _, _, _, rfl⟩ := freeQuota_eq_some h
  exact ⟨rfl, rfl, rfl, rfl, rfl⟩

theorem QuotasKept.freeQuota (kept : QuotasKept bs) {value : PersistedValue} (h : bs.freeQuota value = some bs') :
    QuotasKept bs' := by
  obtain ⟨q, q', found, refunded, rfl⟩ := freeQuota_eq_some h
  obtain ⟨-, -, -, memory, db, batch⟩ := QuotaManager.freeQuota_eq_some refunded
  obtain ⟨memory', db', batch'⟩ := kept _ q found
  exact kept.withQuota ⟨memory.trans memory', db.trans db', batch.trans batch'⟩

end Kept

section Insert

variable {bs bs' : BatchStore} {value : PersistedValue}

theorem Indexed.congr (indexed : Indexed bs) (cached : bs'.dbCache = bs.dbCache)
    (recorded : bs'.expirations = bs.expirations) : Indexed bs' := by
  constructor
  · rw [cached, recorded]
    exact indexed.dueRecorded
  · rw [cached, recorded]
    exact indexed.recordedCached

theorem Indexed.insert (indexed : Indexed bs) {w : PersistedValue} (later : bs.holdsLater value = false)
    (cached : bs'.dbCache = bs.dbCache.insert value.digest w) (expiry : w.expiration = value.expiration)
    (recorded : bs'.expirations = bs.expirations.addItem value.digest value.expiration) : Indexed bs' := by
  -- `insert_to_cache` replaces only an entry that expires earlier
  have earlier : ∀ old, bs.dbCache.get value.digest = some old → old.expiration < value.expiration := by
    intro old found
    simp only [holdsLater, found, decide_eq_false_iff_not] at later
    omega
  constructor
  · intro digest v found
    rw [cached, SortedStore.get_insert] at found
    rw [recorded, TimeExpirations.expiries_addItem]
    by_cases same : digest = value.digest
    · rw [if_pos same] at found
      cases found
      rw [same, expiry]
      exact List.mem_cons_self
    · rw [if_neg same] at found
      exact List.mem_cons_of_mem _ (indexed.dueRecorded digest v found)
  · intro t digest mem
    rw [recorded, TimeExpirations.expiries_addItem] at mem
    rw [cached, SortedStore.get_insert]
    by_cases same : digest = value.digest
    · rw [if_pos same]
      refine ⟨w, rfl, ?_⟩
      rcases List.mem_cons.mp mem with new | old
      · obtain ⟨rfl, -⟩ := Prod.mk.inj new
        omega
      · obtain ⟨v, found, due⟩ := indexed.recordedCached t digest old
        rw [same] at found
        have := earlier v found
        omega
    · rw [if_neg same]
      rcases List.mem_cons.mp mem with new | old
      · exact absurd (Prod.mk.inj new).2 same
      · exact indexed.recordedCached t digest old

theorem Accounted.insertToCache (accounted : Accounted bs) (payload : value.maybePayload.isSome)
    {result : Except BatchStoreError Bool} (h : bs.insertToCache value = some (bs', result)) : Accounted bs' := by
  rcases insertToCache_eq_some h with ⟨-, rfl, -⟩ | ⟨later, q, manager, outcome⟩
  · exact accounted
  have own : q = bs.balanceOf value.author := (quotaManagerOf_eq_some.mp manager).2
  have quotas := own ▸ accounted.quotasKept.balanceOf value.author
  rcases outcome with ⟨e, -, rfl, -⟩ | ⟨charged, storageMode, refunded, charge, refund, rfl, -⟩
  · -- a failed charge keeps the manager that `or_insert` found or created
    refine ⟨accounted.quotasKept.withQuota quotas, accounted.ledgers.congr rfl fun a => ?_,
      accounted.indexed.congr rfl rfl⟩
    rw [balanceOf_withQuota, own]
    split <;> simp_all
  · obtain ⟨-, -, -, memory, db, batch⟩ := QuotaManager.updateQuota_eq_ok charge
    have charged' : Ledgers { bs.withQuota value.author charged with
        dbCache := bs.dbCache.insert value.digest (valueToBeStored value storageMode) }
        (bs.dbCache.get value.digest) :=
      accounted.ledgers.charge payload own.symm charge rfl fun a => balanceOf_withQuota _ _ _
    have kept : QuotasKept { bs.withQuota value.author charged with
        dbCache := bs.dbCache.insert value.digest (valueToBeStored value storageMode) } :=
      accounted.quotasKept.withQuota ⟨memory.trans quotas.1, db.trans quotas.2.1, batch.trans quotas.2.2⟩
    -- the entry replaced, if any, is refunded after the charge
    have settled : Ledgers refunded none ∧ QuotasKept refunded ∧
        refunded.dbCache = bs.dbCache.insert value.digest (valueToBeStored value storageMode) ∧
        refunded.expirations = bs.expirations := by
      cases prev : bs.dbCache.get value.digest with
      | none =>
          rw [prev] at charged'
          simp only [prev, Option.some.injEq] at refund
          subst refund
          exact ⟨charged', kept, rfl, rfl⟩
      | some prevValue =>
          rw [prev] at charged'
          simp only [prev] at refund
          obtain ⟨cached, recorded, -⟩ := freeQuota_frame refund
          exact ⟨charged'.refund refund, kept.freeQuota refund, cached, recorded⟩
    obtain ⟨ledgers, kept', cached, recorded⟩ := settled
    refine ⟨kept', ledgers.congr rfl fun _ => rfl, accounted.indexed.insert later cached ?_ ?_⟩
    · simp [PersistedValue.expiration, info_valueToBeStored]
    · show refunded.expirations.addItem _ _ = _
      rw [recorded]

theorem insertToCache_error_keeps {e : BatchStoreError} (h : bs.insertToCache value = some (bs', .error e)) :
    bs'.dbCache = bs.dbCache ∧ bs'.expirations = bs.expirations ∧ ∀ a, bs'.balanceOf a = bs.balanceOf a := by
  rcases insertToCache_eq_some h with ⟨-, -, wrong⟩ | ⟨-, q, manager, ⟨e, -, rfl, -⟩ | ⟨_, _, _, _, _, _, wrong⟩⟩
  · cases wrong
  · have own : q = bs.balanceOf value.author := (quotaManagerOf_eq_some.mp manager).2
    refine ⟨rfl, rfl, fun a => ?_⟩
    rw [balanceOf_withQuota, own]
    split <;> simp_all
  · cases wrong

theorem Accounted.insertToCache_isSome (accounted : Accounted bs) (payload : value.maybePayload.isSome)
    (fits : bs.memoryQuota ≤ bs.dbQuota) : (bs.insertToCache value).isSome := by
  have manager : bs.quotaManagerOf value.author = some (bs.balanceOf value.author) :=
    quotaManagerOf_eq_some.mpr ⟨fits, rfl⟩
  unfold BatchStore.insertToCache
  by_cases later : bs.holdsLater value
  · simp [later]
  simp only [later, Bool.false_eq_true, if_false, manager, Option.bind_eq_bind, Option.bind_some]
  cases charge : (bs.balanceOf value.author).updateQuota value.numBytes with
  | error e => simp
  | ok r =>
      obtain ⟨charged, storageMode⟩ := r
      have charged' : Ledgers { bs.withQuota value.author charged with
          dbCache := bs.dbCache.insert value.digest (valueToBeStored value storageMode) }
          (bs.dbCache.get value.digest) :=
        accounted.ledgers.charge payload rfl charge rfl fun a => balanceOf_withQuota _ _ _
      cases prev : bs.dbCache.get value.digest with
      | none => simp
      | some prevValue =>
          rw [prev] at charged'
          -- the author of the entry replaced was charged for it, so has a manager
          have managed : (bs.peerQuota.get prevValue.author).isSome :=
            accounted.ledgers.batches.managed prev
          have managed' : ((bs.withQuota value.author charged).peerQuota.get prevValue.author).isSome := by
            rw [get_peerQuota_withQuota]
            split
            · rfl
            · exact managed
          obtain ⟨refunded, refund⟩ := charged'.refund_isSome managed'
          simp only [withQuota_expirations, withQuota_quotas] at refund
          simp [refund]

end Insert

end GravitySdk.QuorumStore.BatchStore
