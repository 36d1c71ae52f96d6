/- The broadcast timeline of the mempool.
   digest: Mempool::read_timeline of aptos-core/mempool/src/core_mempool with
   what it reads and writes: the observed topology of (bucket, priority)
   slots, the snapshot of the pool sharded by sender bucket and refreshed
   with its lazy garbage collection of the dispatch cache, and the dispatch
   cache with its placeholders, its TTL and its last target slots. Times are
   readings of one monotonic clock, one reading per call. -/

import Mathlib
import GravitySdk.Mempool.Types
import GravitySdk.Lib.KeyMap
import GravitySdk.Lib.SortedStore

set_option autoImplicit false
set_option relaxedAutoImplicit false

namespace GravitySdk.CoreMempool

open GravitySdk.Lib

/-- `BroadcastPeerPriority`. -/
inductive BroadcastPeerPriority where
  | primary
  | failover
  deriving DecidableEq, Repr

/-- `priority_discriminant`. -/
def priorityDiscriminant : BroadcastPeerPriority → Nat
  | .primary => 0
  | .failover => 1

/-- `TargetSlot`: a sender bucket and a priority discriminant. -/
abbrev TargetSlot := Nat × Nat

/-- `sender_to_bucket`: the last byte of the sender's address modulo the
number of buckets (at least one). -/
def senderToBucket (sender numSenderBuckets : Nat) : Nat :=
  sender % 256 % max numSenderBuckets 1

/-- `CacheEntry`: a dispatch, or (`dispatched = false`) a placeholder stamped
with the Failover first sighting. -/
structure CacheEntry where
  lastDispatchedAt : Nat
  lastTarget : TargetSlot
  dispatched : Bool
  deriving DecidableEq, Repr

/-- `TxnCache`. -/
structure TxnCache where
  entries : SortedStore TxnHash CacheEntry
  size : Nat
  ttl : Nat

/-- `SnapshotEntry`. -/
structure SnapshotEntry where
  hash : TxnHash
  txn : VerifiedTxn
  deriving DecidableEq, Repr

/-- `Snapshot`. -/
structure Snapshot where
  shards : KeyMap Nat (List SnapshotEntry)
  takenAt : Nat
  maxAge : Nat
  initialized : Bool

/-- `ObservedTopology`. -/
structure ObservedTopology where
  lastSeen : KeyMap TargetSlot Nat
  ttl : Nat

/-- The fields of `Mempool` that `read_timeline` reads and writes. -/
structure Mempool where
  txnCache : TxnCache
  snapshot : Snapshot
  topology : ObservedTopology
  numSenderBuckets : Nat

/-- `Mempool::new`, with the configured durations and the clock reading at
creation: a cache of 100 000 entries, no snapshot yet, no slot observed. -/
def Mempool.new (ttl maxAge topologyTtl numSenderBuckets createdAt : Nat) : Mempool where
  txnCache := ⟨.empty, 100000, ttl⟩
  snapshot := ⟨.empty, createdAt, maxAge, false⟩
  topology := ⟨.empty, topologyTtl⟩
  numSenderBuckets := max numSenderBuckets 1

namespace ObservedTopology

/-- `ObservedTopology::observe`. -/
def observe (topology : ObservedTopology) (slot : TargetSlot) (now : Nat) : ObservedTopology :=
  { topology with lastSeen := topology.lastSeen.insert slot now }

/-- `ObservedTopology::priority_count_for_bucket`: the priorities of the
bucket observed within the topology's TTL. -/
def priorityCountForBucket (topology : ObservedTopology) (bucket now : Nat) : Nat :=
  ([0, 1].filter fun prioDisc =>
    match topology.lastSeen.get (bucket, prioDisc) with
    | some t => decide (now - t ≤ topology.ttl)
    | none => false).length

end ObservedTopology

/-! ### Refreshing the snapshot -/

/-- The shards `refresh_snapshot_locked` builds: each transaction of the pool
pushed onto the shard of its sender's bucket, with its committed hash. -/
def shardsOf (numSenderBuckets : Nat) (txns : List VerifiedTxn) : KeyMap Nat (List SnapshotEntry) :=
  txns.foldl (fun shards txn =>
    let bucket := senderToBucket txn.sender numSenderBuckets
    shards.insert bucket ((shards.get bucket).getD [] ++ [⟨txn.committedHash, txn⟩])) .empty

/-- The size cap of `refresh_snapshot_locked`: the entries read in the hash
map's iteration order, sorted by time (stably), and the oldest dropped until
`size` remain. -/
def TxnCache.evictOldest (cache : TxnCache) (iterationOrder : List TxnHash) : TxnCache :=
  if cache.size < cache.entries.entries.length then
    let byAge := (iterationOrder.filterMap fun h =>
      (cache.entries.get h).map fun e => (h, e.lastDispatchedAt)).insertionSort fun a b => a.2 ≤ b.2
    let toDrop := cache.entries.entries.length - cache.size
    { cache with entries := cache.entries.deleteAll ((byAge.take toDrop).map Prod.fst) }
  else cache

/-- `Mempool::refresh_snapshot_locked`: the shards of the pool's broadcast
transactions, then the lazy garbage collection of the cache (entries of
transactions no longer in the pool) and its size cap. -/
def Mempool.refreshSnapshotLocked (m : Mempool) (broadcastTxns : List VerifiedTxn) (now : Nat)
    (iterationOrder : List TxnHash) : Mempool :=
  let alive := broadcastTxns.map VerifiedTxn.committedHash
  let snapshot : Snapshot :=
    { m.snapshot with shards := shardsOf m.numSenderBuckets broadcastTxns, takenAt := now, initialized := true }
  let cache : TxnCache := { m.txnCache with entries := m.txnCache.entries.retain fun h => decide (h ∈ alive) }
  { m with snapshot := snapshot, txnCache := cache.evictOldest iterationOrder }

/-! ### The dispatch loop -/

/-- The `dispatch` decision of `read_timeline` for the cache entry it finds. -/
def dispatchDecision (ttl : Nat) (seen : Option CacheEntry) (priorityOfReceiver : BroadcastPeerPriority)
    (targetSlot : TargetSlot) (priorityCount now : Nat) : Bool :=
  match seen with
  | none => decide (priorityOfReceiver = .primary)
  | some e =>
      if !e.dispatched then
        match priorityOfReceiver with
        | .primary => true
        | .failover => decide (ttl ≤ now - e.lastDispatchedAt)
      else if now - e.lastDispatchedAt < ttl then false
      else if e.lastTarget = targetSlot ∧ 2 ≤ priorityCount then false
      else true

/-- The `for entry in shard` loop of `read_timeline`. -/
def readLoop (count : Nat) (priorityOfReceiver : BroadcastPeerPriority) (targetSlot : TargetSlot)
    (priorityCount now : Nat) : TxnCache → List VerifiedTxn → List SnapshotEntry → TxnCache × List VerifiedTxn
  | cache, out, [] => (cache, out)
  | cache, out, entry :: rest =>
      if count ≤ out.length then (cache, out)
      else if dispatchDecision cache.ttl (cache.entries.get entry.hash) priorityOfReceiver targetSlot
          priorityCount now then
        let sent : CacheEntry := ⟨now, targetSlot, true⟩
        readLoop count priorityOfReceiver targetSlot priorityCount now
          { cache with entries := cache.entries.insert entry.hash sent } (out ++ [entry.txn]) rest
      else
        -- a Failover first sighting seeds a placeholder; `or_insert` keeps an
        -- older one and its first-sighting time
        let placeholder : CacheEntry := ⟨now, targetSlot, false⟩
        let seeded : TxnCache := if priorityOfReceiver = .failover then
          { cache with entries := cache.entries.orInsert entry.hash placeholder } else cache
        readLoop count priorityOfReceiver targetSlot priorityCount now seeded out rest

/-! ### One call -/

/-- The arguments of one `read_timeline` call: the sender bucket, the count and
the receiver's priority, with the clock reading of the call, the transactions
the pool would list if the snapshot is refreshed, and the iteration order of
the cache's hash map should its size cap evict. -/
structure ReadTimeline where
  senderBucket : Nat
  count : Nat
  priorityOfReceiver : BroadcastPeerPriority
  now : Nat
  broadcastTxns : List VerifiedTxn
  iterationOrder : List TxnHash
  deriving DecidableEq, Repr

/-- `target_slot` of `read_timeline`. -/
def ReadTimeline.targetSlot (c : ReadTimeline) : TargetSlot :=
  (c.senderBucket, priorityDiscriminant c.priorityOfReceiver)

namespace Mempool

/-- The first two blocks of `read_timeline`: the slot is observed, and the
snapshot refreshed if it was never taken or is `max_age` old. -/
def prepare (m : Mempool) (c : ReadTimeline) : Mempool :=
  let observed := { m with topology := m.topology.observe c.targetSlot c.now }
  if !observed.snapshot.initialized || decide (observed.snapshot.maxAge ≤ c.now - observed.snapshot.takenAt) then
    observed.refreshSnapshotLocked c.broadcastTxns c.now c.iterationOrder
  else observed

/-- `priority_count` of `read_timeline`, read right after the observation. -/
def priorityCount (m : Mempool) (c : ReadTimeline) : Nat :=
  (m.topology.observe c.targetSlot c.now).priorityCountForBucket c.senderBucket c.now

/-- The snapshot's shard of a bucket, empty if it has none. -/
def shard (m : Mempool) (bucket : Nat) : List SnapshotEntry :=
  (m.snapshot.shards.get bucket).getD []

/-- `Mempool::read_timeline`: the transactions handed to the receiver. -/
def readTimeline (m : Mempool) (c : ReadTimeline) : Mempool × List VerifiedTxn :=
  let prepared := m.prepare c
  let result := readLoop c.count c.priorityOfReceiver c.targetSlot (m.priorityCount c) c.now
    prepared.txnCache [] (prepared.shard c.senderBucket)
  ({ prepared with txnCache := result.1 }, result.2)

/-- `read_timeline` as a step of the mempool; it always returns. -/
def step (m : Mempool) (c : ReadTimeline) : Option (Mempool × List VerifiedTxn) :=
  some (m.readTimeline c)

end Mempool

/-! ### What the loop does -/

/-- What a dispatch says of the cache entry the loop found for the
transaction: none only for a Primary reader (or, with a TTL of zero, for a
placeholder seeded earlier in the same loop), a placeholder only for a Primary
reader or once it is `ttl` old, and a dispatched entry only once it is `ttl`
old and, while both priorities of the bucket are active, only towards another
slot. -/
def Dispatchable (ttl : Nat) (seen : Option CacheEntry) (priorityOfReceiver : BroadcastPeerPriority)
    (targetSlot : TargetSlot) (priorityCount now : Nat) : Prop :=
  match seen with
  | none => priorityOfReceiver = .primary ∨ ttl = 0
  | some e =>
      if e.dispatched then ttl ≤ now - e.lastDispatchedAt ∧ ¬(e.lastTarget = targetSlot ∧ 2 ≤ priorityCount)
      else priorityOfReceiver = .primary ∨ ttl ≤ now - e.lastDispatchedAt

section Loop

variable {count : Nat} {priorityOfReceiver : BroadcastPeerPriority} {targetSlot : TargetSlot}
  {priorityCount now : Nat}

theorem dispatchable_of_dispatchDecision {ttl : Nat} {seen : Option CacheEntry}
    (go : dispatchDecision ttl seen priorityOfReceiver targetSlot priorityCount now = true) :
    Dispatchable ttl seen priorityOfReceiver targetSlot priorityCount now := by
  cases seen with
  | none => exact .inl (of_decide_eq_true go)
  | some e =>
      simp only [dispatchDecision] at go
      simp only [Dispatchable]
      cases sent : e.dispatched
      · cases priorityOfReceiver with
        | primary => exact .inl rfl
        | failover =>
            simp only [sent, Bool.not_false, if_true] at go
            exact .inr (of_decide_eq_true go)
      · simp only [sent, Bool.not_true, Bool.false_eq_true, if_false] at go
        simp only [if_true]
        constructor
        · by_cases young : now - e.lastDispatchedAt < ttl
          · simp [young] at go
          · omega
        · intro same
          simp [same.1, same.2] at go

theorem readLoop_ttl (cache : TxnCache) (out : List VerifiedTxn) (shard : List SnapshotEntry) :
    (readLoop count priorityOfReceiver targetSlot priorityCount now cache out shard).1.ttl = cache.ttl := by
  induction shard generalizing cache out with
  | nil => rfl
  | cons entry rest ih =>
      simp only [readLoop]
      split
      · rfl
      · split
        · exact ih _ _
        · rw [ih]
          split <;> rfl

theorem readLoop_sublist (cache : TxnCache) (out : List VerifiedTxn) (shard : List SnapshotEntry) :
    ∃ sent, (readLoop count priorityOfReceiver targetSlot priorityCount now cache out shard).2 = out ++ sent ∧
      sent.Sublist (shard.map SnapshotEntry.txn) := by
  induction shard generalizing cache out with
  | nil => exact ⟨[], by simp [readLoop], List.Sublist.slnil⟩
  | cons entry rest ih =>
      simp only [readLoop]
      split
      · exact ⟨[], by simp, List.nil_sublist _⟩
      · split
        · obtain ⟨sent, result, sub⟩ := ih { cache with entries := cache.entries.insert entry.hash ⟨now, targetSlot, true⟩ }
            (out ++ [entry.txn])
          exact ⟨entry.txn :: sent, by simp [result], sub.cons_cons _⟩
        · obtain ⟨sent, result, sub⟩ := ih _ out
          exact ⟨sent, result, sub.cons _⟩

theorem readLoop_length_le (cache : TxnCache) {out : List VerifiedTxn} (room : out.length ≤ count)
    (shard : List SnapshotEntry) :
    (readLoop count priorityOfReceiver targetSlot priorityCount now cache out shard).2.length ≤ count := by
  induction shard generalizing cache out with
  | nil => exact room
  | cons entry rest ih =>
      simp only [readLoop]
      split
      · exact room
      · rename_i notFull
        split
        · exact ih _ (by simp; omega)
        · exact ih _ room

/-- Every transaction sent so far in the call holds the entry of its dispatch. -/
def Marked (now : Nat) (targetSlot : TargetSlot) (cache : TxnCache) (out : List VerifiedTxn) : Prop :=
  ∀ y ∈ out, cache.entries.get y.committedHash = some ⟨now, targetSlot, true⟩

theorem Marked.dispatch {cache : TxnCache} {out : List VerifiedTxn} (marked : Marked now targetSlot cache out)
    {entry : SnapshotEntry} (own : entry.hash = entry.txn.committedHash) :
    Marked now targetSlot { cache with entries := cache.entries.insert entry.hash ⟨now, targetSlot, true⟩ }
      (out ++ [entry.txn]) := by
  intro y hy
  rw [SortedStore.get_insert]
  rcases List.mem_append.mp hy with old | new
  · split
    · rfl
    · exact marked y old
  · rw [List.mem_singleton.mp new, ← own, if_pos rfl]

theorem Marked.seed {cache : TxnCache} {out : List VerifiedTxn} (marked : Marked now targetSlot cache out)
    (k : TxnHash) (placeholder : CacheEntry) :
    Marked now targetSlot { cache with entries := cache.entries.orInsert k placeholder } out := by
  intro y hy
  rw [SortedStore.get_orInsert]
  split
  · rename_i same
    rw [← same, marked y hy]
    rfl
  · exact marked y hy

theorem readLoop_sent (cache : TxnCache) (out : List VerifiedTxn) (shard : List SnapshotEntry)
    (hashes : ∀ x ∈ shard, x.hash = x.txn.committedHash) (marked : Marked now targetSlot cache out) :
    Marked now targetSlot (readLoop count priorityOfReceiver targetSlot priorityCount now cache out shard).1
      (readLoop count priorityOfReceiver targetSlot priorityCount now cache out shard).2 := by
  induction shard generalizing cache out with
  | nil => exact marked
  | cons entry rest ih =>
      have restHashes : ∀ x ∈ rest, x.hash = x.txn.committedHash := fun x hx => hashes x (.tail _ hx)
      simp only [readLoop]
      split
      · exact marked
      · split
        · exact ih _ _ restHashes (marked.dispatch (hashes entry List.mem_cons_self))
        · apply ih _ _ restHashes
          split
          · exact marked.seed _ _
          · exact marked

theorem readLoop_nodup (cache : TxnCache) (out : List VerifiedTxn) (shard : List SnapshotEntry)
    (positive : 0 < cache.ttl) (hashes : ∀ x ∈ shard, x.hash = x.txn.committedHash)
    (distinct : (out.map VerifiedTxn.committedHash).Nodup) (marked : Marked now targetSlot cache out) :
    ((readLoop count priorityOfReceiver targetSlot priorityCount now cache out shard).2.map
      VerifiedTxn.committedHash).Nodup := by
  induction shard generalizing cache out with
  | nil => exact distinct
  | cons entry rest ih =>
      have restHashes : ∀ x ∈ rest, x.hash = x.txn.committedHash := fun x hx => hashes x (.tail _ hx)
      have own := hashes entry List.mem_cons_self
      simp only [readLoop]
      split
      · exact distinct
      · split
        · rename_i go
          -- the entry was not sent before in this call: its entry would be of age zero
          have fresh : entry.txn.committedHash ∉ out.map VerifiedTxn.committedHash := by
            intro seen
            obtain ⟨y, hy, same⟩ := List.mem_map.mp seen
            rw [own, ← same, marked y hy] at go
            simp [dispatchDecision, positive] at go
          refine ih _ _ positive restHashes ?_ (marked.dispatch own)
          simpa [List.nodup_append] using And.intro distinct fresh
        · apply ih _ _ _ restHashes distinct
          · split
            · exact marked.seed _ _
            · exact marked
          · split <;> exact positive

theorem readLoop_unsent (cache : TxnCache) (out : List VerifiedTxn) (shard : List SnapshotEntry)
    (hashes : ∀ x ∈ shard, x.hash = x.txn.committedHash) {h : TxnHash}
    (unsent : h ∉ (readLoop count priorityOfReceiver targetSlot priorityCount now cache out shard).2.map
      VerifiedTxn.committedHash) :
    (readLoop count priorityOfReceiver targetSlot priorityCount now cache out shard).1.entries.get h =
        cache.entries.get h ∨
      (cache.entries.get h = none ∧ priorityOfReceiver = .failover ∧
        (readLoop count priorityOfReceiver targetSlot priorityCount now cache out shard).1.entries.get h =
          some ⟨now, targetSlot, false⟩) := by
  induction shard generalizing cache out with
  | nil => exact .inl rfl
  | cons entry rest ih =>
      have restHashes : ∀ x ∈ rest, x.hash = x.txn.committedHash := fun x hx => hashes x (.tail _ hx)
      have own := hashes entry List.mem_cons_self
      simp only [readLoop] at unsent ⊢
      split
      · exact .inl rfl
      · split
        · rename_i notFull go
          rw [if_neg notFull, if_pos go] at unsent
          -- the entry went out, so its hash is not `h`
          have other : h ≠ entry.hash := by
            intro same
            obtain ⟨sent, result, -⟩ := @readLoop_sublist count priorityOfReceiver targetSlot priorityCount now
              { cache with entries := cache.entries.insert entry.hash ⟨now, targetSlot, true⟩ }
              (out ++ [entry.txn]) rest
            apply unsent
            rw [result, same, own]
            simp
          rcases ih _ _ restHashes unsent with kept | ⟨absent, failover, seeded⟩
          · left
            rw [kept, SortedStore.get_insert, if_neg other]
          · right
            rw [SortedStore.get_insert, if_neg other] at absent
            exact ⟨absent, failover, seeded⟩
        · rename_i notFull stop
          rw [if_neg notFull, if_neg stop] at unsent
          rcases ih _ _ restHashes unsent with kept | ⟨absent, failover, seeded⟩
          · rw [kept]
            split
            · rename_i failover
              rw [SortedStore.get_orInsert]
              split
              · rename_i same
                subst same
                cases held : cache.entries.get entry.hash with
                | none => exact .inr ⟨rfl, failover, by simp⟩
                | some e => exact .inl (by simp)
              · exact .inl rfl
            · exact .inl rfl
          · -- the placeholder was seeded in a later visit, so the cache had none
            rw [if_pos failover, SortedStore.get_orInsert] at absent
            split at absent
            · cases absent
            · exact .inr ⟨absent, failover, seeded⟩

theorem mem_readLoop (cache : TxnCache) (out : List VerifiedTxn) (shard : List SnapshotEntry)
    (hashes : ∀ x ∈ shard, x.hash = x.txn.committedHash) {txn : VerifiedTxn}
    (mem : txn ∈ (readLoop count priorityOfReceiver targetSlot priorityCount now cache out shard).2) :
    txn ∈ out ∨ (txn ∈ shard.map SnapshotEntry.txn ∧
      Dispatchable cache.ttl (cache.entries.get txn.committedHash) priorityOfReceiver targetSlot priorityCount now) := by
  induction shard generalizing cache out with
  | nil => exact .inl mem
  | cons entry rest ih =>
      have restHashes : ∀ x ∈ rest, x.hash = x.txn.committedHash := fun x hx => hashes x (.tail _ hx)
      have own := hashes entry List.mem_cons_self
      simp only [readLoop] at mem
      split at mem
      · exact .inl mem
      · split at mem
        · rename_i go
          have now_ok := dispatchable_of_dispatchDecision go
          rw [own] at now_ok
          rcases ih _ _ restHashes mem with old | ⟨later, able⟩
          · rcases List.mem_append.mp old with old | new
            · exact .inl old
            · rw [List.mem_singleton.mp new]
              exact .inr ⟨List.mem_map_of_mem List.mem_cons_self, now_ok⟩
          · refine .inr ⟨List.mem_cons_of_mem _ later, ?_⟩
            by_cases same : txn.committedHash = entry.txn.committedHash
            · rw [same]
              exact now_ok
            · rw [SortedStore.get_insert, own, if_neg same] at able
              exact able
        · rename_i stop
          rcases ih _ _ restHashes mem with old | ⟨later, able⟩
          · exact .inl old
          · refine .inr ⟨List.mem_cons_of_mem _ later, ?_⟩
            split at able
            · rename_i failover
              rw [SortedStore.get_orInsert] at able
              split at able
              · rename_i same
                rw [same]
                cases held : cache.entries.get entry.hash with
                | none =>
                    -- only a placeholder seeded in this call, of age zero: the TTL is zero
                    rw [held] at able
                    simp only [Option.getD_none, Dispatchable, Bool.false_eq_true, if_false, failover,
                      reduceCtorEq, false_or, Nat.sub_self, Nat.le_zero] at able
                    exact .inr able
                | some e =>
                    rw [held, Option.getD_some] at able
                    exact able
              · exact able
            · exact able

end Loop

/-! ### What a call prepares -/

/-- The snapshot's shards hold each transaction under its committed hash, in
the shard of its sender's bucket. -/
def WellSharded (numSenderBuckets : Nat) (shards : KeyMap Nat (List SnapshotEntry)) : Prop :=
  ∀ bucket entries x, shards.get bucket = some entries → x ∈ entries →
    x.hash = x.txn.committedHash ∧ senderToBucket x.txn.sender numSenderBuckets = bucket

theorem wellSharded_shardsOf (numSenderBuckets : Nat) (txns : List VerifiedTxn) :
    WellSharded numSenderBuckets (shardsOf numSenderBuckets txns) := by
  unfold shardsOf
  -- the fold keeps the shards well formed, starting from none
  suffices kept : ∀ shards, WellSharded numSenderBuckets shards →
      WellSharded numSenderBuckets (txns.foldl (fun shards txn =>
        shards.insert (senderToBucket txn.sender numSenderBuckets)
          ((shards.get (senderToBucket txn.sender numSenderBuckets)).getD [] ++ [⟨txn.committedHash, txn⟩])) shards) by
    apply kept
    intro bucket entries x found
    simp at found
  induction txns with
  | nil => exact fun _ sharded => sharded
  | cons txn rest ih =>
      intro shards sharded
      apply ih
      intro bucket entries x found mem
      rw [KeyMap.get_insert] at found
      split at found
      · rename_i same
        rw [← Option.some.inj found] at mem
        rcases List.mem_append.mp mem with old | new
        · cases held : shards.get (senderToBucket txn.sender numSenderBuckets) with
          | none => simp [held] at old
          | some olds =>
              rw [held, Option.getD_some] at old
              rw [same]
              exact sharded _ olds x held old
        · rw [List.mem_singleton.mp new]
          exact ⟨rfl, same.symm⟩
      · exact sharded bucket entries x found mem

/-- Shards that list no hash twice. -/
def DistinctShards (shards : KeyMap Nat (List SnapshotEntry)) : Prop :=
  ∀ bucket entries, shards.get bucket = some entries → (entries.map SnapshotEntry.hash).Nodup

theorem distinctShards_foldl (numSenderBuckets : Nat) (rest : List VerifiedTxn) :
    ∀ shards, DistinctShards shards →
      (∀ bucket entries x, shards.get bucket = some entries → x ∈ entries →
        x.hash ∉ rest.map VerifiedTxn.committedHash) →
      (rest.map VerifiedTxn.committedHash).Nodup →
      DistinctShards (rest.foldl (fun shards txn =>
        shards.insert (senderToBucket txn.sender numSenderBuckets)
          ((shards.get (senderToBucket txn.sender numSenderBuckets)).getD [] ++ [⟨txn.committedHash, txn⟩])) shards) := by
  induction rest with
  | nil => exact fun _ distinct _ _ => distinct
  | cons txn rest ih =>
      intro shards distinct fresh nodup
      rw [List.map_cons, List.nodup_cons] at nodup
      set bucket := senderToBucket txn.sender numSenderBuckets
      set old := (shards.get bucket).getD []
      -- what the bucket of the transaction held before, all new to the rest
      have oldDistinct : (old.map SnapshotEntry.hash).Nodup := by
        cases held : shards.get bucket with
        | none => simp [old, held]
        | some entries => simpa [old, held] using distinct bucket entries held
      have oldFresh : ∀ x ∈ old, x.hash ∉ (txn :: rest).map VerifiedTxn.committedHash := by
        intro x mem
        cases held : shards.get bucket with
        | none => simp [old, held] at mem
        | some entries => exact fresh bucket entries x held (by simpa [old, held] using mem)
      apply ih
      · intro b entries found
        rw [KeyMap.get_insert] at found
        split at found
        · cases found
          rw [List.map_append, List.nodup_append]
          refine ⟨oldDistinct, List.nodup_singleton _, ?_⟩
          intro h hOld h' hNew same
          obtain ⟨x, mem, rfl⟩ := List.mem_map.mp hOld
          rw [List.map_singleton, List.mem_singleton] at hNew
          exact oldFresh x mem (by rw [same, hNew]; exact List.mem_cons_self)
        · exact distinct b entries found
      · intro b entries x found mem
        rw [KeyMap.get_insert] at found
        split at found
        · cases found
          rcases List.mem_append.mp mem with held | new
          · exact fun inRest => oldFresh x held (List.mem_cons_of_mem _ inRest)
          · rw [List.mem_singleton.mp new]
            exact nodup.1
        · exact fun inRest => fresh b entries x found mem (List.mem_cons_of_mem _ inRest)
      · exact nodup.2

theorem distinctShards_shardsOf (numSenderBuckets : Nat) {txns : List VerifiedTxn}
    (listed : (txns.map VerifiedTxn.committedHash).Nodup) : DistinctShards (shardsOf numSenderBuckets txns) :=
  distinctShards_foldl numSenderBuckets txns .empty (fun _ _ found => by simp at found)
    (fun _ _ _ found => by simp at found) listed

namespace Mempool

variable {m : Mempool} {c : ReadTimeline}

theorem prepare_numSenderBuckets : (m.prepare c).numSenderBuckets = m.numSenderBuckets := by
  simp only [prepare]
  split <;> rfl

theorem prepare_ttl : (m.prepare c).txnCache.ttl = m.txnCache.ttl := by
  simp only [prepare]
  split
  · simp only [refreshSnapshotLocked, TxnCache.evictOldest]
    split <;> rfl
  · rfl

theorem get_prepare {h : TxnHash} {e : CacheEntry} (found : (m.prepare c).txnCache.entries.get h = some e) :
    m.txnCache.entries.get h = some e := by
  simp only [prepare] at found
  split at found
  · simp only [refreshSnapshotLocked, TxnCache.evictOldest] at found
    split at found
    · simp only [SortedStore.get_deleteAll, SortedStore.get_retain] at found
      split at found
      · cases found
      · split at found
        · exact found
        · cases found
    · simp only [SortedStore.get_retain] at found
      split at found
      · exact found
      · cases found
  · exact found

theorem prepare_wellSharded (sharded : WellSharded m.numSenderBuckets m.snapshot.shards) :
    WellSharded m.numSenderBuckets (m.prepare c).snapshot.shards := by
  simp only [prepare]
  split
  · exact wellSharded_shardsOf _ _
  · exact sharded

theorem prepare_distinctShards (distinct : DistinctShards m.snapshot.shards)
    (listed : (c.broadcastTxns.map VerifiedTxn.committedHash).Nodup) :
    DistinctShards (m.prepare c).snapshot.shards := by
  simp only [prepare]
  split
  · exact distinctShards_shardsOf _ listed
  · exact distinct

end Mempool

end GravitySdk.CoreMempool
