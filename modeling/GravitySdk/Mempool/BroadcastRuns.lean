/- The broadcast timeline over whole runs.
   digest: Along any sequence of read_timeline calls from Mempool::new, the
   dispatch cache only holds what the run wrote: a dispatched entry is the
   time and slot of the last call that returned the transaction, and a
   placeholder was seeded by a Failover call of the run. From that record and
   the loop lemmas of Mempool/Broadcast.lean, every call reads its own shard,
   returns at most count transactions (each once, with a positive TTL),
   dispatches a transaction first to Failover only over a placeholder at least
   cache.ttl old, and re-dispatches one still in the cache only after the TTL
   and, while both priorities of its bucket are active, towards another slot.
   The laws hold for any clock readings: duration_since saturates at zero, as
   Nat subtraction does. -/

import GravitySdk.Mempool.Broadcast
import GravitySdk.Lib.Transition

set_option autoImplicit false
set_option relaxedAutoImplicit false

namespace GravitySdk.CoreMempool

open GravitySdk.Lib GravitySdk.Lib.Transition

/-- The time and the slot of the last call of the run that returned a
transaction of hash `h`. -/
def lastDispatch (evs : List (ReadTimeline × List VerifiedTxn)) (h : TxnHash) : Option (Nat × TargetSlot) :=
  evs.foldl (fun last ev =>
    if h ∈ ev.2.map VerifiedTxn.committedHash then some (ev.1.now, ev.1.targetSlot) else last) none

theorem lastDispatch_snoc (evs : List (ReadTimeline × List VerifiedTxn)) (c : ReadTimeline)
    (out : List VerifiedTxn) (h : TxnHash) :
    lastDispatch (evs ++ [(c, out)]) h =
      if h ∈ out.map VerifiedTxn.committedHash then some (c.now, c.targetSlot) else lastDispatch evs h := by
  simp only [lastDispatch, List.foldl_append, List.foldl_cons, List.foldl_nil]

theorem senderToBucket_max (sender numSenderBuckets : Nat) :
    senderToBucket sender (max numSenderBuckets 1) = senderToBucket sender numSenderBuckets := by
  simp only [senderToBucket, Nat.max_assoc, Nat.max_self]

theorem WellSharded.mem_shard {numSenderBuckets : Nat} {shards : KeyMap Nat (List SnapshotEntry)}
    (sharded : WellSharded numSenderBuckets shards) {bucket : Nat} {x : SnapshotEntry}
    (mem : x ∈ (shards.get bucket).getD []) :
    x.hash = x.txn.committedHash ∧ senderToBucket x.txn.sender numSenderBuckets = bucket := by
  cases found : shards.get bucket with
  | none => simp [found] at mem
  | some entries =>
      rw [found, Option.getD_some] at mem
      exact sharded bucket entries x found mem

/-! ### What the cache records -/

/-- What every state of a run from `Mempool::new ttl _ _ numSenderBuckets _`
keeps: the configuration, the shards, and a cache that holds only what the
run's calls wrote. -/
structure Recorded (ttl numSenderBuckets : Nat) (evs : List (ReadTimeline × List VerifiedTxn)) (m : Mempool) :
    Prop where
  ttl_eq : m.txnCache.ttl = ttl
  buckets_eq : m.numSenderBuckets = max numSenderBuckets 1
  sharded : WellSharded m.numSenderBuckets m.snapshot.shards
  lastDispatched : ∀ h e, m.txnCache.entries.get h = some e → e.dispatched = true →
    lastDispatch evs h = some (e.lastDispatchedAt, e.lastTarget)
  seededByFailover : ∀ h e, m.txnCache.entries.get h = some e → e.dispatched = false →
    ∃ ev ∈ evs, ev.1.priorityOfReceiver = .failover ∧ ev.1.now = e.lastDispatchedAt ∧
      ev.1.targetSlot = e.lastTarget

theorem recorded_new (ttl maxAge topologyTtl numSenderBuckets createdAt : Nat) :
    Recorded ttl numSenderBuckets [] (Mempool.new ttl maxAge topologyTtl numSenderBuckets createdAt) where
  ttl_eq := rfl
  buckets_eq := rfl
  sharded := fun _ _ _ found => by simp [Mempool.new] at found
  lastDispatched := fun _ _ found => by simp [Mempool.new] at found
  seededByFailover := fun _ _ found => by simp [Mempool.new] at found

namespace Mempool

/-- The loop of one call, over the prepared state. -/
def dispatchLoop (m : Mempool) (c : ReadTimeline) : TxnCache × List VerifiedTxn :=
  readLoop c.count c.priorityOfReceiver c.targetSlot (m.priorityCount c) c.now
    (m.prepare c).txnCache [] ((m.prepare c).shard c.senderBucket)

variable (m : Mempool) (c : ReadTimeline)

@[simp] theorem readTimeline_txnCache : (m.readTimeline c).1.txnCache = (m.dispatchLoop c).1 := rfl

@[simp] theorem readTimeline_snapshot : (m.readTimeline c).1.snapshot = (m.prepare c).snapshot := rfl

@[simp] theorem readTimeline_numSenderBuckets :
    (m.readTimeline c).1.numSenderBuckets = (m.prepare c).numSenderBuckets := rfl

@[simp] theorem readTimeline_snd : (m.readTimeline c).2 = (m.dispatchLoop c).2 := rfl

theorem dispatchLoop_sublist :
    (m.dispatchLoop c).2.Sublist (((m.prepare c).shard c.senderBucket).map SnapshotEntry.txn) := by
  obtain ⟨sent, result, sub⟩ := @readLoop_sublist c.count c.priorityOfReceiver c.targetSlot (m.priorityCount c)
    c.now (m.prepare c).txnCache [] ((m.prepare c).shard c.senderBucket)
  rw [dispatchLoop, result, List.nil_append]
  exact sub

theorem dispatchLoop_length_le : (m.dispatchLoop c).2.length ≤ c.count :=
  readLoop_length_le _ (Nat.zero_le _) _

end Mempool

section Call

variable {ttl numSenderBuckets : Nat} {evs : List (ReadTimeline × List VerifiedTxn)} {m : Mempool}
  (recorded : Recorded ttl numSenderBuckets evs m) (c : ReadTimeline)
include recorded

/-! The loop lemmas of Mempool/Broadcast.lean at the loop of one call. -/

theorem Recorded.prepared_hashes : ∀ x ∈ (m.prepare c).shard c.senderBucket, x.hash = x.txn.committedHash :=
  fun _ mem => ((Mempool.prepare_wellSharded recorded.sharded).mem_shard mem).1

theorem Recorded.prepared_ttl : (m.prepare c).txnCache.ttl = ttl := by
  rw [Mempool.prepare_ttl, recorded.ttl_eq]

theorem Recorded.dispatchLoop_sent : Marked c.now c.targetSlot (m.dispatchLoop c).1 (m.dispatchLoop c).2 :=
  readLoop_sent _ _ _ (recorded.prepared_hashes c) (fun _ none => nomatch none)

theorem Recorded.dispatchLoop_unsent {h : TxnHash} (unsent : h ∉ (m.dispatchLoop c).2.map VerifiedTxn.committedHash) :
    (m.dispatchLoop c).1.entries.get h = (m.prepare c).txnCache.entries.get h ∨
      ((m.prepare c).txnCache.entries.get h = none ∧ c.priorityOfReceiver = .failover ∧
        (m.dispatchLoop c).1.entries.get h = some ⟨c.now, c.targetSlot, false⟩) :=
  readLoop_unsent _ _ _ (recorded.prepared_hashes c) unsent

theorem Recorded.mem_dispatchLoop {txn : VerifiedTxn} (mem : txn ∈ (m.dispatchLoop c).2) :
    txn ∈ ((m.prepare c).shard c.senderBucket).map SnapshotEntry.txn ∧
      Dispatchable ttl ((m.prepare c).txnCache.entries.get txn.committedHash) c.priorityOfReceiver c.targetSlot
        (m.priorityCount c) c.now := by
  rw [← recorded.prepared_ttl c]
  rcases mem_readLoop _ _ _ (recorded.prepared_hashes c) mem with none | walked
  · cases none
  · exact walked

theorem Recorded.readTimeline :
    Recorded ttl numSenderBuckets (evs ++ [(c, (m.readTimeline c).2)]) (m.readTimeline c).1 := by
  have sent := recorded.dispatchLoop_sent c
  constructor
  case ttl_eq =>
      rw [Mempool.readTimeline_txnCache, ← recorded.prepared_ttl c]
      exact readLoop_ttl _ _ _
  case buckets_eq =>
      rw [Mempool.readTimeline_numSenderBuckets, Mempool.prepare_numSenderBuckets, recorded.buckets_eq]
  case sharded =>
      rw [Mempool.readTimeline_numSenderBuckets, Mempool.readTimeline_snapshot, Mempool.prepare_numSenderBuckets]
      exact Mempool.prepare_wellSharded recorded.sharded
  case lastDispatched =>
      intro h e found dispatched
      rw [Mempool.readTimeline_txnCache] at found
      rw [Mempool.readTimeline_snd, lastDispatch_snoc]
      split
      · -- sent in this call: the entry is the one its dispatch wrote
        rename_i out
        obtain ⟨y, hy, rfl⟩ := List.mem_map.mp out
        rw [sent y hy] at found
        cases found
        rfl
      · rename_i unsent
        rcases recorded.dispatchLoop_unsent c unsent with kept | ⟨-, -, seeded⟩
        · exact recorded.lastDispatched h e (Mempool.get_prepare (kept ▸ found)) dispatched
        · rw [seeded] at found
          cases found
          cases dispatched
  case seededByFailover =>
      intro h e found placeholder
      rw [Mempool.readTimeline_txnCache] at found
      rw [Mempool.readTimeline_snd]
      by_cases out : h ∈ (m.dispatchLoop c).2.map VerifiedTxn.committedHash
      · obtain ⟨y, hy, rfl⟩ := List.mem_map.mp out
        rw [sent y hy] at found
        cases found
        cases placeholder
      · rcases recorded.dispatchLoop_unsent c out with kept | ⟨-, failover, seeded⟩
        · obtain ⟨ev, mem, seededAt⟩ :=
            recorded.seededByFailover h e (Mempool.get_prepare (kept ▸ found)) placeholder
          exact ⟨ev, List.mem_append_left _ mem, seededAt⟩
        · -- a placeholder this call seeded
          rw [seeded] at found
          cases found
          exact ⟨(c, (m.dispatchLoop c).2), List.mem_append_right _ List.mem_cons_self, failover, rfl, rfl⟩

/-! ### What each call returns -/

/-- What one call returns, read against the shard it walked. -/
structure ReadsShard (ttl numSenderBuckets : Nat) (m : Mempool) (c : ReadTimeline) (out : List VerifiedTxn) :
    Prop where
  inShard : out.Sublist (((m.prepare c).shard c.senderBucket).map SnapshotEntry.txn)
  ofBucket : ∀ txn ∈ out, senderToBucket txn.sender numSenderBuckets = c.senderBucket
  atMostCount : out.length ≤ c.count
  onceEach : 0 < ttl → (out.map VerifiedTxn.committedHash).Nodup

/-- How a call's dispatches follow the earlier calls of the run. A first
dispatch to a Failover reader goes over a Failover placeholder seeded at least
`ttl` earlier (or, with a TTL of zero, one seeded in the same call). A
re-dispatch of a transaction whose dispatch entry remains in the cache comes at
least `ttl` after the previous dispatch and, while both priorities of the
bucket are active, goes to another slot. -/
structure DispatchLaws (ttl : Nat) (evs : List (ReadTimeline × List VerifiedTxn)) (m : Mempool) (c : ReadTimeline)
    (out : List VerifiedTxn) : Prop where
  firstToFailover : ∀ txn ∈ out, lastDispatch evs txn.committedHash = none →
    c.priorityOfReceiver = .failover →
    (∃ e, (m.prepare c).txnCache.entries.get txn.committedHash = some e ∧ e.dispatched = false ∧
        ttl ≤ c.now - e.lastDispatchedAt ∧
        ∃ ev ∈ evs, ev.1.priorityOfReceiver = .failover ∧ ev.1.now = e.lastDispatchedAt) ∨
      (ttl = 0 ∧ (m.prepare c).txnCache.entries.get txn.committedHash = none)
  notWithinTtl : ∀ txn ∈ out, ∀ t slot, lastDispatch evs txn.committedHash = some (t, slot) →
    (∃ e, (m.prepare c).txnCache.entries.get txn.committedHash = some e ∧ e.dispatched = true) →
    ttl ≤ c.now - t
  otherSlot : ∀ txn ∈ out, ∀ t slot, lastDispatch evs txn.committedHash = some (t, slot) →
    (∃ e, (m.prepare c).txnCache.entries.get txn.committedHash = some e ∧ e.dispatched = true) →
    2 ≤ m.priorityCount c → slot ≠ c.targetSlot

theorem Recorded.readsShard : ReadsShard ttl numSenderBuckets m c (m.readTimeline c).2 where
  inShard := Mempool.dispatchLoop_sublist m c
  ofBucket := by
    intro txn mem
    obtain ⟨x, walked, rfl⟩ := List.mem_map.mp (recorded.mem_dispatchLoop c mem).1
    have bucket := ((Mempool.prepare_wellSharded recorded.sharded).mem_shard walked).2
    rwa [recorded.buckets_eq, senderToBucket_max] at bucket
  atMostCount := Mempool.dispatchLoop_length_le m c
  onceEach := fun positive =>
    readLoop_nodup _ _ _ (by rw [recorded.prepared_ttl c]; exact positive) (recorded.prepared_hashes c)
      List.nodup_nil (fun _ none => nomatch none)

theorem Recorded.prepared_lastDispatch {h : TxnHash} {e : CacheEntry}
    (found : (m.prepare c).txnCache.entries.get h = some e) (dispatched : e.dispatched = true) :
    lastDispatch evs h = some (e.lastDispatchedAt, e.lastTarget) :=
  recorded.lastDispatched h e (Mempool.get_prepare found) dispatched

theorem Recorded.redispatched {txn : VerifiedTxn} (mem : txn ∈ (m.readTimeline c).2) {t : Nat}
    {slot : TargetSlot} (last : lastDispatch evs txn.committedHash = some (t, slot))
    (remains : ∃ e, (m.prepare c).txnCache.entries.get txn.committedHash = some e ∧ e.dispatched = true) :
    ttl ≤ c.now - t ∧ ¬(slot = c.targetSlot ∧ 2 ≤ m.priorityCount c) := by
  obtain ⟨e, held, sent⟩ := remains
  have able := (recorded.mem_dispatchLoop c mem).2
  rw [recorded.prepared_lastDispatch c held sent] at last
  obtain ⟨rfl, rfl⟩ := Prod.mk.inj (Option.some.inj last)
  rw [held] at able
  simpa only [Dispatchable, sent, if_true] using able

theorem Recorded.dispatchLaws : DispatchLaws ttl evs m c (m.readTimeline c).2 where
  firstToFailover := by
    intro txn mem never failover
    have able := (recorded.mem_dispatchLoop c mem).2
    cases held : (m.prepare c).txnCache.entries.get txn.committedHash with
    | none =>
        rw [held] at able
        simp only [Dispatchable, failover, reduceCtorEq, false_or] at able
        exact .inr ⟨able, rfl⟩
    | some e =>
        rw [held] at able
        cases sent : e.dispatched
        · -- a placeholder: Failover takes it over only once it is `ttl` old
          simp only [Dispatchable, sent, Bool.false_eq_true, if_false, failover, reduceCtorEq, false_or] at able
          obtain ⟨ev, seenIn, byFailover, seededAt, -⟩ :=
            recorded.seededByFailover _ e (Mempool.get_prepare held) sent
          exact .inl ⟨e, rfl, sent, able, ev, seenIn, byFailover, seededAt⟩
        · -- a dispatch entry would be a dispatch of the run
          rw [recorded.prepared_lastDispatch c held sent] at never
          cases never
  notWithinTtl := fun _ mem _ _ last remains => (recorded.redispatched c mem last remains).1
  otherSlot := fun _ mem _ _ last remains both same => (recorded.redispatched c mem last remains).2 ⟨same, both⟩

end Call

theorem recorded_of_trace {ttl maxAge topologyTtl numSenderBuckets createdAt : Nat}
    {evs : List (ReadTimeline × List VerifiedTxn)} {m : Mempool}
    (run : Trace Mempool.step (fun _ _ => True) (Mempool.new ttl maxAge topologyTtl numSenderBuckets createdAt)
      evs m) :
    Recorded ttl numSenderBuckets evs m :=
  Trace.invariant (fun m evs => Recorded ttl numSenderBuckets evs m) (recorded_new _ _ _ _ _)
    (fun m evs c out m' recorded _ stepped => by
      obtain ⟨rfl, rfl⟩ := Prod.ext_iff.mp (Option.some.inj stepped : m.readTimeline c = (m', out))
      exact recorded.readTimeline c) run


/-- Every call of a run from `Mempool::new` reads its sender bucket's shard,
returns at most `count` transactions, each once when the TTL is positive, and
dispatches by the laws of `DispatchLaws` against the earlier calls. -/
theorem readTimeline_dispatch_laws {ttl maxAge topologyTtl numSenderBuckets createdAt : Nat}
    {evs : List (ReadTimeline × List VerifiedTxn)} {m : Mempool}
    (run : Trace Mempool.step (fun _ _ => True) (Mempool.new ttl maxAge topologyTtl numSenderBuckets createdAt)
      evs m)
    (c : ReadTimeline) :
    ReadsShard ttl numSenderBuckets m c (m.readTimeline c).2 ∧ DispatchLaws ttl evs m c (m.readTimeline c).2 :=
  ⟨(recorded_of_trace run).readsShard c, (recorded_of_trace run).dispatchLaws c⟩

/-- With a TTL of zero, a pool that lists a transaction twice has it returned
twice by one Primary read: the dispatch entry of age zero no longer
suppresses it. -/
example :
    ((Mempool.new 0 20 1500 1 0).readTimeline
        ⟨0, 2, .primary, 0, [⟨1, 0, 7, 100⟩, ⟨1, 0, 7, 100⟩], []⟩).2 = [⟨1, 0, 7, 100⟩, ⟨1, 0, 7, 100⟩] := by
  decide +kernel

/-- The pool's contract: every listing a snapshot refresh may read names each
hash once. -/
def ListsOnce (_ : Mempool) (c : ReadTimeline) : Prop := (c.broadcastTxns.map VerifiedTxn.committedHash).Nodup

/-- The contract as a test on the call. -/
def listsOnceCheck (_ : Mempool) (c : ReadTimeline) : Bool :=
  decide (c.broadcastTxns.map VerifiedTxn.committedHash).Nodup

theorem distinctShards_of_trace {ttl maxAge topologyTtl numSenderBuckets createdAt : Nat}
    {evs : List (ReadTimeline × List VerifiedTxn)} {m : Mempool}
    (run : Trace Mempool.step ListsOnce (Mempool.new ttl maxAge topologyTtl numSenderBuckets createdAt) evs m) :
    DistinctShards m.snapshot.shards :=
  Trace.invariant (fun m _ => DistinctShards m.snapshot.shards) (fun _ _ found => by simp [Mempool.new] at found)
    (fun m _ c out m' distinct listed stepped => by
      obtain ⟨rfl, rfl⟩ := Prod.ext_iff.mp (Option.some.inj stepped : m.readTimeline c = (m', out))
      rw [Mempool.readTimeline_snapshot]
      exact Mempool.prepare_distinctShards distinct listed) run

/-- Over a run from `Mempool::new` whose pool never lists a hash twice, every
call also returns each transaction once, whatever the TTL. -/
theorem readTimeline_dispatch_laws_of_listing_once {ttl maxAge topologyTtl numSenderBuckets createdAt : Nat}
    {evs : List (ReadTimeline × List VerifiedTxn)} {m : Mempool}
    (run : Trace Mempool.step ListsOnce (Mempool.new ttl maxAge topologyTtl numSenderBuckets createdAt) evs m)
    (c : ReadTimeline) (listed : ListsOnce m c) :
    ReadsShard ttl numSenderBuckets m c (m.readTimeline c).2 ∧
      ((m.readTimeline c).2.map VerifiedTxn.committedHash).Nodup ∧
      DispatchLaws ttl evs m c (m.readTimeline c).2 := by
  have anyListing := run.mono fun _ _ _ => trivial
  have recorded := recorded_of_trace anyListing
  obtain ⟨reads, laws⟩ := readTimeline_dispatch_laws anyListing c
  refine ⟨reads, ?_, laws⟩
  -- the call hands out a sublist of its shard, and the shard lists each hash once
  have prepared : DistinctShards (m.prepare c).snapshot.shards :=
    Mempool.prepare_distinctShards (distinctShards_of_trace run) listed
  have byEntry : ((m.prepare c).shard c.senderBucket).map (VerifiedTxn.committedHash ∘ SnapshotEntry.txn) =
      ((m.prepare c).shard c.senderBucket).map SnapshotEntry.hash :=
    List.map_congr_left fun x hx => (recorded.prepared_hashes c x hx).symm
  have shardDistinct : ((((m.prepare c).shard c.senderBucket).map SnapshotEntry.txn).map
      VerifiedTxn.committedHash).Nodup := by
    rw [List.map_map, byEntry]
    unfold Mempool.shard
    cases held : (m.prepare c).snapshot.shards.get c.senderBucket with
    | none => simp
    | some entries => simpa using prepared _ entries held
  exact (reads.inShard.map _).nodup shardDistinct

/-- Two readers of one bucket: a Primary read at time 0 sends both
transactions, a Primary read at 1 and a Failover read at 2 send nothing within
the TTL of 5, a Primary read at 7 sends nothing to the slot of the last
dispatch, and a Failover read at 8 sends both again. -/
theorem readTimeline_dispatch_laws_after_redispatch :
    let txns : List VerifiedTxn := [⟨1, 0, 7, 100⟩, ⟨2, 0, 8, 100⟩]
    let calls : List ReadTimeline :=
      [⟨0, 2, .primary, 0, txns, []⟩, ⟨0, 2, .primary, 1, txns, []⟩, ⟨0, 2, .failover, 2, txns, []⟩,
        ⟨0, 2, .primary, 7, txns, []⟩]
    let c : ReadTimeline := ⟨0, 2, .failover, 8, txns, []⟩
    ∃ m, runChecked Mempool.step listsOnceCheck (Mempool.new 5 20 1500 1 0) calls = some (m, [txns, [], [], []]) ∧
      (m.readTimeline c).2 = txns ∧ ListsOnce m c ∧
      ReadsShard 5 1 m c (m.readTimeline c).2 ∧ ((m.readTimeline c).2.map VerifiedTxn.committedHash).Nodup ∧
      DispatchLaws 5 (calls.zip [txns, [], [], []]) m c (m.readTimeline c).2 := by
  intro txns calls c
  have shape : (runChecked Mempool.step listsOnceCheck (Mempool.new 5 20 1500 1 0) calls).map
      (fun p => (p.2, (p.1.readTimeline c).2)) = some ([txns, [], [], []], txns) := by
    decide +kernel
  obtain ⟨⟨m, rs⟩, ran, holds⟩ := Option.map_eq_some_iff.mp shape
  obtain ⟨rfl, again⟩ := Prod.mk.inj holds
  have listed : ListsOnce m c := by
    unfold ListsOnce
    decide
  have run := Trace.of_runChecked (fun _ _ _ h => of_decide_eq_true h) ran
  exact ⟨m, ran, again, listed, readTimeline_dispatch_laws_of_listing_once run c listed⟩

end GravitySdk.CoreMempool
