/- Expiry of the batch store by a certified time.
   digest: The loop of clear_expired_payload over the digests the heap returns
   finds each of them cached, removes and refunds exactly the entries due and
   keeps the ones a later value extended; from accounted quotas the whole
   expiry keeps them, and leaves the heap an index of what remains. -/

import GravitySdk.QuorumStore.QuotaAccounting

set_option autoImplicit false
set_option relaxedAutoImplicit false

namespace GravitySdk.QuorumStore.BatchStore

open GravitySdk.Lib
open GravitySdk.Consensus

/-- The three quotas the store was created with. -/
def quotas (bs : BatchStore) : Nat × Nat × Nat := (bs.memoryQuota, bs.dbQuota, bs.batchQuota)

/-- What the expiry of the digests `hs` from `bs` leaves in `bs'`: the entries
of `hs` that are due removed and refunded, every other entry kept, the heap
untouched, and the keys of the entries removed returned. -/
structure Cleared (certifiedTime : Nat) (hs : List HashValue) (bs bs' : BatchStore) (keys : List BatchKey) :
    Prop where
  ledgers : Ledgers bs' none
  quotasKept : QuotasKept bs'
  expirations : bs'.expirations = bs.expirations
  cache : ∀ d, bs'.dbCache.get d =
    if d ∈ hs then (bs.dbCache.get d).filter (fun v => certifiedTime < v.expiration) else bs.dbCache.get d
  keys : ∀ key, key ∈ keys ↔ key.digest ∈ hs ∧
    ∃ v, bs.dbCache.get key.digest = some v ∧ v.expiration ≤ certifiedTime ∧ key.epoch = v.epoch

/-- What the expiry of a certified time leaves: the accounts kept, the entries
not due, and the keys of the entries due. -/
structure Expired (certifiedTime : Nat) (bs bs' : BatchStore) (keys : List BatchKey) : Prop where
  accounted : Accounted bs'
  cache : ∀ d, bs'.dbCache.get d = (bs.dbCache.get d).filter fun v => certifiedTime < v.expiration
  keys : ∀ key, key ∈ keys ↔
    ∃ v, bs.dbCache.get key.digest = some v ∧ v.expiration ≤ certifiedTime ∧ key.epoch = v.epoch

section Frame

variable {bs bs' : BatchStore} {certifiedTime : Nat}

theorem clearExpired_quotas {h : HashValue} {removed : Option BatchKey}
    (cleared : bs.clearExpired certifiedTime h = some (bs', removed)) : bs'.quotas = bs.quotas := by
  unfold clearExpired at cleared
  split at cleared
  · cases cleared
  · split at cleared
    · obtain ⟨freed, refund, same⟩ := Option.map_eq_some_iff.mp cleared
      cases same
      obtain ⟨-, -, memory, db, batch⟩ := freeQuota_frame refund
      simp only [quotas, memory, db, batch]
    · cases cleared
      rfl

theorem clearExpiredLoop_quotas {hs : List HashValue} {keys : List BatchKey}
    (loop : clearExpiredLoop certifiedTime bs hs = some (bs', keys)) : bs'.quotas = bs.quotas := by
  induction hs generalizing bs keys with
  | nil =>
      cases loop
      rfl
  | cons h hs ih =>
      simp only [clearExpiredLoop] at loop
      cases first : bs.clearExpired certifiedTime h with
      | none => simp [first] at loop
      | some r =>
          obtain ⟨mid, removed⟩ := r
          simp only [first] at loop
          obtain ⟨⟨last, keys'⟩, tail, same⟩ := Option.map_eq_some_iff.mp loop
          obtain ⟨rfl, -⟩ := Prod.mk.inj same
          rw [ih tail, clearExpired_quotas first]

theorem clearExpiredPayload_quotas {hashOrder : List HashValue → List HashValue} {keys : List BatchKey}
    (cleared : bs.clearExpiredPayload hashOrder certifiedTime = some (bs', keys)) : bs'.quotas = bs.quotas := by
  have loop : clearExpiredLoop certifiedTime { bs with expirations := (bs.expirations.expire certifiedTime).2 }
      (hashOrder (bs.expirations.expire certifiedTime).1) = some (bs', keys) := cleared
  have kept := clearExpiredLoop_quotas loop
  exact kept

end Frame

section Clear

variable {bs : BatchStore} {certifiedTime : Nat}

theorem clearExpired_cleared (ledgers : Ledgers bs none) (kept : QuotasKept bs) {h : HashValue}
    {entry : PersistedValue} (cached : bs.dbCache.get h = some entry) :
    ∃ bs' removed, bs.clearExpired certifiedTime h = some (bs', removed) ∧
      Cleared certifiedTime [h] bs bs' removed.toList := by
  unfold clearExpired
  rw [cached]
  by_cases due : entry.expiration ≤ certifiedTime
  · -- the entry leaves the cache owed, and its refund settles it
    have erased : Ledgers { bs with dbCache := bs.dbCache.erase h } (bs.dbCache.get h) :=
      ledgers.erase rfl fun _ => rfl
    rw [cached] at erased
    have managed : (bs.peerQuota.get entry.author).isSome := ledgers.batches.managed cached
    obtain ⟨freed, refund⟩ := erased.refund_isSome managed
    obtain ⟨cache', recorded, -⟩ := freeQuota_frame refund
    have kept' : QuotasKept { bs with dbCache := bs.dbCache.erase h } := kept
    refine ⟨freed, some ⟨entry.epoch, h⟩, by simp [due, refund], erased.refund refund,
      kept'.freeQuota refund, recorded, fun d => ?_, fun key => ?_⟩
    · rw [cache']
      by_cases same : d = h
      · subst same
        simp [cached, Option.filter_some, Nat.not_lt.mpr due]
      · simp [same]
    · constructor
      · intro mem
        simp only [Option.toList_some, List.mem_singleton] at mem
        subst mem
        exact ⟨List.mem_singleton_self _, entry, cached, due, rfl⟩
      · rintro ⟨mem, v, found, -, epoch⟩
        rw [List.mem_singleton.mp mem, cached] at found
        cases found
        cases key
        simp_all
  · refine ⟨bs, none, by simp [due], ledgers, kept, rfl, fun d => ?_, fun key => ?_⟩
    · have later : certifiedTime < entry.expiration := Nat.lt_of_not_le due
      by_cases same : d = h
      · subst same
        simp [cached, Option.filter_some, later]
      · simp [same]
    · simp only [Option.toList_none, List.not_mem_nil, false_iff, not_and, not_exists]
      intro mem v found
      rw [List.mem_singleton.mp mem, cached] at found
      cases found
      exact fun expired => absurd expired due

theorem Cleared.cons {h : HashValue} {hs : List HashValue} {mid bs' : BatchStore} {keys keys' : List BatchKey}
    (fresh : h ∉ hs) (first : Cleared certifiedTime [h] bs mid keys)
    (rest : Cleared certifiedTime hs mid bs' keys') : Cleared certifiedTime (h :: hs) bs bs' (keys ++ keys') := by
  -- the first expiry touches only `h`, which the rest never reads
  have untouched : ∀ d, d ≠ h → mid.dbCache.get d = bs.dbCache.get d := by
    intro d other
    rw [first.cache d, if_neg (by simpa using other)]
  refine ⟨rest.ledgers, rest.quotasKept, rest.expirations.trans first.expirations, fun d => ?_, fun key => ?_⟩
  · rw [rest.cache d]
    by_cases same : d = h
    · subst same
      rw [if_neg fresh, first.cache d]
      simp
    · rw [untouched d same]
      simp [same]
  · rw [List.mem_append, first.keys key, rest.keys key]
    by_cases same : key.digest = h
    · simp [same, fresh]
    · rw [untouched _ same]
      simp [same]

theorem clearExpiredLoop_cleared : ∀ (hs : List HashValue) (bs : BatchStore), hs.Nodup →
    (∀ h ∈ hs, (bs.dbCache.get h).isSome) → Ledgers bs none → QuotasKept bs →
    ∃ bs' keys, clearExpiredLoop certifiedTime bs hs = some (bs', keys) ∧ Cleared certifiedTime hs bs bs' keys
  | [], bs, _, _, ledgers, kept => ⟨bs, [], rfl, ledgers, kept, rfl, fun _ => by simp, fun _ => by simp⟩
  | h :: hs, bs, nodup, cached, ledgers, kept => by
      obtain ⟨fresh, nodup'⟩ := List.nodup_cons.mp nodup
      obtain ⟨entry, found⟩ := Option.isSome_iff_exists.mp (cached h List.mem_cons_self)
      obtain ⟨mid, removed, first, clearedFirst⟩ : ∃ mid removed,
          bs.clearExpired certifiedTime h = some (mid, removed) ∧
            Cleared certifiedTime [h] bs mid removed.toList :=
        clearExpired_cleared ledgers kept found
      -- the digests still to expire are untouched by the first
      have cached' : ∀ h' ∈ hs, (mid.dbCache.get h').isSome := by
        intro h' mem
        have other : h' ≠ h := fun same => fresh (same ▸ mem)
        rw [clearedFirst.cache h', if_neg (by simpa using other)]
        exact cached h' (List.mem_cons_of_mem _ mem)
      obtain ⟨bs', keys, loop, clearedRest⟩ :=
        clearExpiredLoop_cleared hs mid nodup' cached' clearedFirst.ledgers clearedFirst.quotasKept
      refine ⟨bs', removed.toList ++ keys, ?_, clearedFirst.cons fresh clearedRest⟩
      simp [clearExpiredLoop, first, loop]

end Clear

section Payload

variable {bs : BatchStore} {certifiedTime : Nat} {hashOrder : List HashValue → List HashValue}

theorem Accounted.clearExpiredPayload_expired (accounted : Accounted bs) (perm : ∀ l, (hashOrder l).Perm l) :
    ∃ bs' keys, bs.clearExpiredPayload hashOrder certifiedTime = some (bs', keys) ∧
      Expired certifiedTime bs bs' keys := by
  have mem : ∀ d, d ∈ hashOrder (bs.expirations.expire certifiedTime).1 ↔
      ∃ t, (t, d) ∈ bs.expirations.expiries ∧ t ≤ certifiedTime :=
    fun d => (perm _).mem_iff.trans TimeExpirations.mem_expire
  -- every digest the heap returns is cached: the heap indexes the cache
  have cached : ∀ h ∈ hashOrder (bs.expirations.expire certifiedTime).1, (bs.dbCache.get h).isSome := by
    intro h member
    obtain ⟨t, recorded, -⟩ := (mem h).mp member
    obtain ⟨v, found, -⟩ := accounted.indexed.recordedCached t h recorded
    simp [found]
  obtain ⟨bs', keys, loop, cleared⟩ : ∃ bs' keys,
      clearExpiredLoop certifiedTime { bs with expirations := (bs.expirations.expire certifiedTime).2 }
        (hashOrder (bs.expirations.expire certifiedTime).1) = some (bs', keys) ∧
      Cleared certifiedTime (hashOrder (bs.expirations.expire certifiedTime).1)
        { bs with expirations := (bs.expirations.expire certifiedTime).2 } bs' keys :=
    clearExpiredLoop_cleared _ _ ((perm _).nodup_iff.mpr TimeExpirations.nodup_expire) cached
      (accounted.ledgers.congr rfl fun _ => rfl) accounted.quotasKept
  -- an entry whose digest the heap did not return is not due
  have notDue : ∀ d v, d ∉ hashOrder (bs.expirations.expire certifiedTime).1 → bs.dbCache.get d = some v →
      certifiedTime < v.expiration := by
    intro d v member found
    by_contra notLater
    exact member ((mem d).mpr ⟨v.expiration, accounted.indexed.dueRecorded d v found, by omega⟩)
  have cache : ∀ d, bs'.dbCache.get d = (bs.dbCache.get d).filter fun v => certifiedTime < v.expiration := by
    intro d
    rw [cleared.cache d]
    by_cases member : d ∈ hashOrder (bs.expirations.expire certifiedTime).1
    · rw [if_pos member]
    · rw [if_neg member]
      cases found : bs.dbCache.get d with
      | none => simp
      | some v => simp [Option.filter_some, notDue d v member found]
  have indexed : Indexed bs' := by
    constructor
    · intro d v found
      rw [cache d, Option.filter_eq_some_iff] at found
      obtain ⟨found, later⟩ := found
      rw [cleared.expirations]
      exact TimeExpirations.mem_expire_rest.mpr ⟨accounted.indexed.dueRecorded d v found, by simpa using later⟩
    · intro t d recorded
      rw [cleared.expirations] at recorded
      obtain ⟨recorded, later⟩ := TimeExpirations.mem_expire_rest.mp recorded
      obtain ⟨v, found, below⟩ := accounted.indexed.recordedCached t d recorded
      refine ⟨v, ?_, below⟩
      have stays : certifiedTime < v.expiration := by
        simp only at later
        omega
      rw [cache d, found, Option.filter_some]
      simp [stays]
  refine ⟨bs', keys, loop, ⟨cleared.quotasKept, cleared.ledgers, indexed⟩, cache, fun key => ?_⟩
  rw [cleared.keys key]
  constructor
  · rintro ⟨-, due⟩
    exact due
  · rintro ⟨v, found, due, epoch⟩
    exact ⟨(mem _).mpr ⟨v.expiration, accounted.indexed.dueRecorded _ v found, due⟩, v, found, due, epoch⟩

theorem Accounted.updateCertifiedTimestamp_expired (accounted : Accounted bs) (perm : ∀ l, (hashOrder l).Perm l)
    (later : bs.lastCertifiedTime ≤ certifiedTime) :
    ∃ bs', bs.updateCertifiedTimestamp hashOrder certifiedTime = some bs' ∧ ∃ keys, Expired certifiedTime bs bs' keys := by
  have timed : Accounted { bs with lastCertifiedTime := max bs.lastCertifiedTime certifiedTime } :=
    ⟨accounted.quotasKept, accounted.ledgers.congr rfl fun _ => rfl, accounted.indexed.congr rfl rfl⟩
  obtain ⟨bs', keys, cleared, expired⟩ : ∃ bs' keys,
      clearExpiredPayload { bs with lastCertifiedTime := max bs.lastCertifiedTime certifiedTime } hashOrder
        certifiedTime = some (bs', keys) ∧
      Expired certifiedTime { bs with lastCertifiedTime := max bs.lastCertifiedTime certifiedTime } bs' keys :=
    timed.clearExpiredPayload_expired perm
  refine ⟨bs', ?_, keys, ⟨expired.accounted, expired.cache, expired.keys⟩⟩
  rw [max_eq_right later] at cleared
  simp [updateCertifiedTimestamp, later, cleared]

end Payload

end GravitySdk.QuorumStore.BatchStore
