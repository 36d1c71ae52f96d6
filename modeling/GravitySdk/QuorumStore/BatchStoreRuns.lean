/- Runs of the batch store.
   digest: Along every run of saves and insertions of values that carry their
   payloads, and of expiries by certified times that do not go back, the
   quotas of every author balance against what its cached batches cost; no
   refund panics, a failed insertion changes nothing, and each expiry removes
   exactly the entries due.  A value without its payload leaks memory quota. -/

import GravitySdk.QuorumStore.Expiry

set_option autoImplicit false
set_option relaxedAutoImplicit false

namespace GravitySdk.QuorumStore.BatchStore

open GravitySdk.Lib
open GravitySdk.Lib.Transition
open GravitySdk.Consensus

/-- The contract of the runs the accounts hold over: values that carry their
payloads, as `persist` passes them; certified times that do not go back, as
the assertion of `update_certified_timestamp` requires; and an iteration of
each expired set that lists it. -/
def Allowed (bs : BatchStore) : Call → Prop
  | .save value => value.maybePayload.isSome
  | .insertToCache value => value.maybePayload.isSome
  | .updateCertifiedTimestamp certifiedTime hashOrder =>
      bs.lastCertifiedTime ≤ certifiedTime ∧ ∀ l, (hashOrder l).Perm l
  | .clearExpiredPayload _ hashOrder => ∀ l, (hashOrder l).Perm l

/-- The contract on the values and on the certified times as a test; the
iteration orders of the expired sets are not tested. -/
def allowedCheck (bs : BatchStore) : Call → Bool
  | .save value => value.maybePayload.isSome
  | .insertToCache value => value.maybePayload.isSome
  | .updateCertifiedTimestamp certifiedTime _ => decide (bs.lastCertifiedTime ≤ certifiedTime)
  | .clearExpiredPayload _ _ => true

/-- The certified time a call expires the cache by. -/
def Call.certifiedTime : Call → Option Nat
  | .updateCertifiedTimestamp certifiedTime _ => some certifiedTime
  | .clearExpiredPayload certifiedTime _ => some certifiedTime
  | .save _ => none
  | .insertToCache _ => none

/-- The quotas of every author balance: what its manager has left and what its
cached entries cost, in batches, database bytes and bytes held in memory. -/
structure QuotasBalance (bs : BatchStore) : Prop where
  batches : ∀ author, (bs.balanceOf author).batchBalance + bs.chargedTo (fun _ => 1) author = bs.batchQuota
  bytes : ∀ author, (bs.balanceOf author).dbBalance + bs.chargedTo PersistedValue.numBytes author = bs.dbQuota
  memory : ∀ author, (bs.balanceOf author).memoryBalance + bs.chargedTo memoryCost author = bs.memoryQuota

/-- What the next allowed call does: it panics only at the assertion of
`QuotaManager::new`, fails without changing the cache, the heap or a balance,
and expires exactly the entries due. -/
structure CallSafe (bs : BatchStore) (c : Call) : Prop where
  noPanic : bs.memoryQuota ≤ bs.dbQuota → (bs.step c).isSome
  failureKeeps : ∀ bs' e, bs.step c = some (bs', .inserted (.error e)) →
    bs'.dbCache = bs.dbCache ∧ bs'.expirations = bs.expirations ∧ ∀ a, bs'.balanceOf a = bs.balanceOf a
  clearsDue : ∀ certifiedTime bs' reply, c.certifiedTime = some certifiedTime → bs.step c = some (bs', reply) →
    ∀ d, bs'.dbCache.get d = (bs.dbCache.get d).filter fun v => certifiedTime < v.expiration
  keysDue : ∀ certifiedTime bs' keys, c.certifiedTime = some certifiedTime →
    bs.step c = some (bs', .cleared keys) → ∀ key, key ∈ keys ↔
      ∃ v, bs.dbCache.get key.digest = some v ∧ v.expiration ≤ certifiedTime ∧ key.epoch = v.epoch

section Step

variable {bs bs' : BatchStore} {c : Call} {reply : Reply}

theorem Accounted.quotasBalance (accounted : Accounted bs) : QuotasBalance bs := by
  have quotas := accounted.quotasKept.balanceOf
  constructor
  · intro author
    have ledger := accounted.ledgers.batches author
    simp only [Quota.batches, owedBy, Nat.add_zero] at ledger
    rw [ledger, (quotas author).2.2]
  · intro author
    have ledger := accounted.ledgers.bytes author
    simp only [Quota.bytes, owedBy, Nat.add_zero] at ledger
    rw [ledger, (quotas author).2.1]
  · intro author
    have ledger := accounted.ledgers.memory author
    simp only [Quota.memory, owedBy, Nat.add_zero] at ledger
    rw [ledger, (quotas author).1]

theorem accounted_new (epoch lastCertifiedTime memoryQuota dbQuota batchQuota : Nat) :
    Accounted (new epoch lastCertifiedTime memoryQuota dbQuota batchQuota) := by
  -- nothing is cached or recorded, and every author has its fresh manager
  have fresh : ∀ author, (new epoch lastCertifiedTime memoryQuota dbQuota batchQuota).balanceOf author =
      ⟨memoryQuota, dbQuota, batchQuota, memoryQuota, dbQuota, batchQuota⟩ := fun _ => rfl
  have unused : ∀ (cost : PersistedValue → Nat) author,
      (new epoch lastCertifiedTime memoryQuota dbQuota batchQuota).chargedTo cost author = 0 := fun _ _ => rfl
  refine ⟨?_, ⟨?_, ?_, ?_⟩, ⟨?_, ?_⟩⟩
  · intro author q found
    simp [new] at found
  · intro author
    simp [Quota.batches, fresh, unused, owedBy]
  · intro author
    simp [Quota.bytes, fresh, unused, owedBy]
  · intro author
    simp [Quota.memory, fresh, unused, owedBy]
  · intro digest value found
    simp [new] at found
  · intro t digest recorded
    simp [new, TimeExpirations.new] at recorded

theorem insertToCache_quotas {value : PersistedValue} {result : Except BatchStoreError Bool}
    (h : bs.insertToCache value = some (bs', result)) : bs'.quotas = bs.quotas := by
  rcases insertToCache_eq_some h with ⟨-, rfl, -⟩ | ⟨-, q, -, ⟨e, -, rfl, -⟩ | ⟨charged, storageMode, refunded, -,
    refund, rfl, -⟩⟩
  · rfl
  · rfl
  · -- the refund of the entry replaced, if any, keeps the quotas
    cases prev : bs.dbCache.get value.digest with
    | none =>
        simp only [prev, Option.some.injEq] at refund
        subst refund
        rfl
    | some prevValue =>
        simp only [prev] at refund
        obtain ⟨-, -, memory, db, batch⟩ := freeQuota_frame refund
        simp only [quotas, memory, db, batch]
        rfl

theorem step_quotas (h : bs.step c = some (bs', reply)) : bs'.quotas = bs.quotas := by
  cases c with
  | save value =>
      obtain ⟨result, saved, -⟩ := step_save_eq_some h
      rcases save_eq_some saved with inserted | ⟨rfl, -⟩
      · exact insertToCache_quotas inserted
      · rfl
  | insertToCache value =>
      obtain ⟨result, inserted, -⟩ := step_insertToCache_eq_some h
      exact insertToCache_quotas inserted
  | updateCertifiedTimestamp certifiedTime hashOrder =>
      obtain ⟨updated, -⟩ := step_updateCertifiedTimestamp_eq_some h
      obtain ⟨-, keys, cleared⟩ := updateCertifiedTimestamp_eq_some updated
      have timed := clearExpiredPayload_quotas cleared
      exact timed
  | clearExpiredPayload certifiedTime hashOrder =>
      obtain ⟨keys, cleared, -⟩ := step_clearExpiredPayload_eq_some h
      exact clearExpiredPayload_quotas cleared

theorem Accounted.step (accounted : Accounted bs) (allowed : Allowed bs c) (h : bs.step c = some (bs', reply)) :
    Accounted bs' := by
  cases c with
  | save value =>
      obtain ⟨result, saved, -⟩ := step_save_eq_some h
      rcases save_eq_some saved with inserted | ⟨rfl, -⟩
      · exact accounted.insertToCache allowed inserted
      · exact accounted
  | insertToCache value =>
      obtain ⟨result, inserted, -⟩ := step_insertToCache_eq_some h
      exact accounted.insertToCache allowed inserted
  | updateCertifiedTimestamp certifiedTime hashOrder =>
      obtain ⟨later, perm⟩ := allowed
      obtain ⟨bs'', updated, keys, expired⟩ := accounted.updateCertifiedTimestamp_expired perm later
      obtain ⟨updated', -⟩ := step_updateCertifiedTimestamp_eq_some h
      rw [updated'] at updated
      cases updated
      exact expired.accounted
  | clearExpiredPayload certifiedTime hashOrder =>
      obtain ⟨bs'', keys, cleared, expired⟩ : ∃ bs'' keys,
          bs.clearExpiredPayload hashOrder certifiedTime = some (bs'', keys) ∧
            Expired certifiedTime bs bs'' keys :=
        accounted.clearExpiredPayload_expired allowed
      obtain ⟨keys', cleared', -⟩ := step_clearExpiredPayload_eq_some h
      rw [cleared'] at cleared
      cases cleared
      exact expired.accounted

theorem Accounted.step_isSome (accounted : Accounted bs) (allowed : Allowed bs c)
    (fits : bs.memoryQuota ≤ bs.dbQuota) : (bs.step c).isSome := by
  cases c with
  | save value =>
      simp only [BatchStore.step, Option.isSome_map]
      unfold save
      split
      · exact accounted.insertToCache_isSome allowed fits
      · rfl
  | insertToCache value =>
      simp only [BatchStore.step, Option.isSome_map]
      exact accounted.insertToCache_isSome allowed fits
  | updateCertifiedTimestamp certifiedTime hashOrder =>
      obtain ⟨bs'', updated, -⟩ := accounted.updateCertifiedTimestamp_expired allowed.2 allowed.1
      simp [BatchStore.step, updated]
  | clearExpiredPayload certifiedTime hashOrder =>
      obtain ⟨bs'', keys, cleared, -⟩ : ∃ bs'' keys,
          bs.clearExpiredPayload hashOrder certifiedTime = some (bs'', keys) ∧
            Expired certifiedTime bs bs'' keys :=
        accounted.clearExpiredPayload_expired allowed
      simp [BatchStore.step, cleared]

theorem step_error_keeps {e : BatchStoreError} (h : bs.step c = some (bs', .inserted (.error e))) :
    bs'.dbCache = bs.dbCache ∧ bs'.expirations = bs.expirations ∧ ∀ a, bs'.balanceOf a = bs.balanceOf a := by
  cases c with
  | save value =>
      obtain ⟨result, saved, same⟩ := step_save_eq_some h
      cases same
      rcases save_eq_some saved with inserted | ⟨rfl, -⟩
      · exact insertToCache_error_keeps inserted
      · exact ⟨rfl, rfl, fun _ => rfl⟩
  | insertToCache value =>
      obtain ⟨result, inserted, same⟩ := step_insertToCache_eq_some h
      cases same
      exact insertToCache_error_keeps inserted
  | updateCertifiedTimestamp certifiedTime hashOrder => cases (step_updateCertifiedTimestamp_eq_some h).2
  | clearExpiredPayload certifiedTime hashOrder =>
      obtain ⟨keys, -, wrong⟩ := step_clearExpiredPayload_eq_some h
      cases wrong

theorem Accounted.step_expired (accounted : Accounted bs) (allowed : Allowed bs c) {certifiedTime : Nat}
    (time : c.certifiedTime = some certifiedTime) (h : bs.step c = some (bs', reply)) :
    ∃ keys, Expired certifiedTime bs bs' keys ∧ (reply = .updated ∨ reply = .cleared keys) := by
  cases c with
  | save value => cases time
  | insertToCache value => cases time
  | updateCertifiedTimestamp certifiedTime' hashOrder =>
      simp only [Call.certifiedTime, Option.some.injEq] at time
      subst time
      obtain ⟨bs'', updated, keys, expired⟩ := accounted.updateCertifiedTimestamp_expired allowed.2 allowed.1
      obtain ⟨updated', rfl⟩ := step_updateCertifiedTimestamp_eq_some h
      rw [updated'] at updated
      cases updated
      exact ⟨keys, expired, .inl rfl⟩
  | clearExpiredPayload certifiedTime' hashOrder =>
      simp only [Call.certifiedTime, Option.some.injEq] at time
      subst time
      obtain ⟨bs'', keys, cleared, expired⟩ : ∃ bs'' keys,
          bs.clearExpiredPayload hashOrder certifiedTime' = some (bs'', keys) ∧
            Expired certifiedTime' bs bs'' keys :=
        accounted.clearExpiredPayload_expired allowed
      obtain ⟨keys', cleared', rfl⟩ := step_clearExpiredPayload_eq_some h
      rw [cleared'] at cleared
      cases cleared
      exact ⟨_, expired, .inr rfl⟩

theorem Accounted.callSafe (accounted : Accounted bs) (allowed : Allowed bs c) : CallSafe bs c where
  noPanic := accounted.step_isSome allowed
  failureKeeps := fun _ _ h => step_error_keeps h
  clearsDue := fun _ _ _ time h => by
    obtain ⟨keys, expired, -⟩ := accounted.step_expired allowed time h
    exact expired.cache
  keysDue := fun _ _ _ time h => by
    obtain ⟨keys, expired, updated | cleared⟩ := accounted.step_expired allowed time h
    · cases updated
    · cases cleared
      exact expired.keys

end Step

section Runs

variable {epoch lastCertifiedTime memoryQuota dbQuota batchQuota : Nat} {evs : List (Call × Reply)}
  {bs : BatchStore}

/-- Every store an allowed run reaches is accounted, with the quotas it was
created with. -/
theorem accounted_of_trace
    (run : Trace step Allowed (new epoch lastCertifiedTime memoryQuota dbQuota batchQuota) evs bs) :
    Accounted bs ∧ bs.quotas = (memoryQuota, dbQuota, batchQuota) :=
  Trace.invariant (fun bs _ => Accounted bs ∧ bs.quotas = (memoryQuota, dbQuota, batchQuota))
    ⟨accounted_new _ _ _ _ _, rfl⟩
    (fun _ _ _ _ _ reached allowed h => ⟨reached.1.step allowed h, (step_quotas h).trans reached.2⟩) run

theorem batchStore_quota_accounting
    (run : Trace step Allowed (new epoch lastCertifiedTime memoryQuota dbQuota batchQuota) evs bs) :
    QuotasBalance bs ∧ bs.quotas = (memoryQuota, dbQuota, batchQuota) ∧ ∀ c, Allowed bs c → CallSafe bs c := by
  obtain ⟨accounted, quotas⟩ := accounted_of_trace run
  exact ⟨accounted.quotasBalance, quotas, fun _ allowed => accounted.callSafe allowed⟩

theorem batchStore_quota_accounting_after_expiry :
    let calls : List Call :=
      [.insertToCache ⟨⟨1, ⟨0, 0⟩, 0, 5, 7, 1, 10, 0⟩, some []⟩, .save ⟨⟨1, ⟨1, 0⟩, 0, 9, 8, 1, 20, 0⟩, some []⟩,
        .insertToCache ⟨⟨2, ⟨0, 0⟩, 0, 3, 9, 1, 60, 0⟩, some []⟩, .updateCertifiedTimestamp 5 id]
    ∃ bs, runChecked step allowedCheck (new 0 0 50 100 10) calls =
        some (bs, [.inserted (.ok true), .inserted (.ok true), .inserted (.ok true), .updated]) ∧
      bs.dbCache.entries.length = 1 ∧
      QuotasBalance bs ∧ bs.quotas = (50, 100, 10) ∧ ∀ c, Allowed bs c → CallSafe bs c := by
  intro calls
  -- the third value does not fit in memory and is held by the database alone;
  -- the expiry at time 5 refunds the first and the third
  have shape : (runChecked step allowedCheck (new 0 0 50 100 10) calls).map
      (fun p => (p.2, p.1.dbCache.entries.length)) =
      some ([.inserted (.ok true), .inserted (.ok true), .inserted (.ok true), .updated], 1) := by
    decide +kernel
  obtain ⟨⟨bs, rs⟩, ran, holds⟩ := Option.map_eq_some_iff.mp shape
  obtain ⟨rfl, one⟩ := Prod.mk.inj holds
  have sound : ∀ t, ∀ c ∈ calls, allowedCheck t c = true → Allowed t c := by
    intro t c mem checked
    simp only [calls, List.mem_cons, List.not_mem_nil, or_false] at mem
    rcases mem with rfl | rfl | rfl | rfl
    · exact checked
    · exact checked
    · exact checked
    · exact ⟨of_decide_eq_true checked, fun l => List.Perm.refl l⟩
  exact ⟨bs, ran, one, batchStore_quota_accounting (Trace.of_runChecked sound ran)⟩

end Runs

/-- A value without its payload is charged to memory when its bytes fit there,
and refunded as held by the database alone: its author's memory balance falls
short of the quota with the value cached, and stays short after its expiry
with nothing cached. -/
example :
    (run step (new 0 0 100 100 10) [.insertToCache ⟨⟨1, ⟨0, 0⟩, 0, 5, 7, 1, 10, 0⟩, none⟩]).map
        (fun r => (r.2, (r.1.balanceOf 1).memoryBalance + r.1.chargedTo memoryCost 1, r.1.memoryQuota)) =
      some ([.inserted (.ok true)], 90, 100) ∧
    (run step (new 0 0 100 100 10)
        [.insertToCache ⟨⟨1, ⟨0, 0⟩, 0, 5, 7, 1, 10, 0⟩, none⟩, .updateCertifiedTimestamp 5 id]).map
        (fun r => (r.2, (r.1.balanceOf 1).memoryBalance, r.1.dbCache.entries.length)) =
      some ([.inserted (.ok true), .updated], 90, 0) := by
  constructor <;> decide +kernel

end GravitySdk.QuorumStore.BatchStore
