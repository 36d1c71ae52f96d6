/- The best-transactions feed over whole runs.
   digest: Run beside best_txns, a record of the transactions pulled from the
   current iterator since it was created shows that last_nonces always holds
   the last nonce the per-sender rule accepted in that lifetime. Every call
   then returns exactly the transactions of its pulls that the rule accepts
   and the filter passes, pulls only while the budget has room, stops only at
   the budget or at the iterator's None, and the accepted nonces of each
   sender form a run n₀, n₀ + 1, ... in pull order. -/

import GravitySdk.GravityNode.BestTxns
import GravitySdk.Lib.Transition

set_option autoImplicit false
set_option relaxedAutoImplicit false

namespace GravitySdk.GravityNode

open GravitySdk.Lib GravitySdk.Lib.KeyedRun GravitySdk.Lib.Transition

/-- The part of the iterator `before` that a call pulled, leaving `after`. -/
def pulledBy (before after : BestIter) : BestIter := before.take (before.length - after.length)

theorem pulledBy_append (consumed rest : BestIter) : pulledBy (consumed ++ rest) rest = consumed := by
  simp [pulledBy]

theorem accepted_append (pulled more : List PoolTxn) :
    accepted (pulled ++ more) = keepAll PoolTxn.sender PoolTxn.nonce (accepted pulled) more :=
  keepAll_append _ _ [] pulled more

namespace Mempool

/-- The pulls of the lifetime a call serves from: none when it recreates the
iterator. -/
def lifetimeBase (m : Mempool) (lifetime : List PoolTxn) (c : BestTxnsCall) : List PoolTxn :=
  if m.refreshed c then [] else lifetime

/-- The pulls of the lifetime after a call: none once it returned nothing,
since the iterator is then dropped. -/
def lifetimeAfter (m : Mempool) (lifetime : List PoolTxn) (c : BestTxnsCall) (m' : Mempool)
    (result : List VerifiedTxn) : List PoolTxn :=
  if result = [] then []
  else m.lifetimeBase lifetime c ++
    (pulledBy ((m.served c).bestTxns.getD []) (m'.cachedBest.bestTxns.getD [])).reduceOption

end Mempool

/-- `best_txns` run beside the record of the current lifetime's pulls. -/
def stepPulled (g : Mempool × List PoolTxn) (c : BestTxnsCall) :
    Option ((Mempool × List PoolTxn) × List VerifiedTxn) :=
  (g.1.bestTxns c).map fun called => ((called.1, g.1.lifetimeAfter g.2 c called.1 called.2), called.2)

/-- Every run of the mempool is the first half of a run that records its
lifetimes' pulls. -/
theorem trace_pulled {allow : Mempool → BestTxnsCall → Prop} {m₀ m : Mempool}
    {evs : List (BestTxnsCall × List VerifiedTxn)} (run : Trace Mempool.step allow m₀ evs m)
    (lifetime₀ : List PoolTxn) :
    ∃ lifetime, Trace stepPulled (fun g c => allow g.1 c) (m₀, lifetime₀) evs (m, lifetime) := by
  induction run with
  | nil => exact ⟨lifetime₀, .nil _⟩
  | @snoc before m' _ c result _ allowed stepped ih =>
      obtain ⟨lifetime, recorded⟩ := ih
      exact ⟨before.lifetimeAfter lifetime c m' result,
        .snoc recorded allowed (by rw [Mempool.step] at stepped; simp [stepPulled, stepped])⟩

/-! ### One call against the record -/

/-- What a call does with the iterator it serves from, against the rule's
acceptances of the lifetime so far: it returns the newly accepted transactions
of its pulls that the filter passes, pulls only while the budget has room,
stops only at the budget or at the iterator's `None`, leaves the rest of the
iterator and a map of last nonces that holds the lifetime's last accepted
nonce of every sender, under which the accepted nonces of each sender form a
run. -/
structure ServedLaws (m : Mempool) (lifetime : List PoolTxn) (c : BestTxnsCall) (m' : Mempool)
    (result : List VerifiedTxn) : Prop where
  pulls : ∃ consumed rest, (m.served c).bestTxns = some (consumed ++ rest) ∧
    result = returnedOf c.filter m.chainId (accepted (m.lifetimeBase lifetime c)) consumed.reduceOption ∧
    (∀ k < consumed.length,
      (returnedOf c.filter m.chainId (accepted (m.lifetimeBase lifetime c)) (consumed.take k).reduceOption).length <
          c.limit ∧
        bytesOf (returnedOf c.filter m.chainId (accepted (m.lifetimeBase lifetime c))
          (consumed.take k).reduceOption) < c.maxBytes) ∧
    (rest = [] ∨ consumed.getLast? = some none ∨ ¬(result.length < c.limit ∧ bytesOf result < c.maxBytes)) ∧
    (∀ a, IsRun (seqsOf PoolTxn.sender PoolTxn.nonce
      (accepted (m.lifetimeBase lifetime c ++ consumed.reduceOption)) a)) ∧
    (result ≠ [] → m'.cachedBest.bestTxns = some rest ∧
      NoncesOf m'.cachedBest.lastNonces (accepted (m.lifetimeBase lifetime c ++ consumed.reduceOption)))
  withinLimit : result.length ≤ c.limit
  endsWhenEmpty : result = [] → m'.cachedBest.bestTxns = none ∧ m'.cachedBest.lastNonces = .empty

namespace Mempool

variable {m m' : Mempool} {lifetime : List PoolTxn} {c : BestTxnsCall} {result : List VerifiedTxn}

theorem served_nonces (nonces : NoncesOf m.cachedBest.lastNonces (accepted lifetime)) (c : BestTxnsCall) :
    NoncesOf (m.served c).lastNonces (accepted (m.lifetimeBase lifetime c)) := by
  cases fresh : m.refreshed c
  · rw [served_of_kept fresh, lifetimeBase, fresh]
    exact nonces
  · rw [served_of_refreshed fresh, lifetimeBase, fresh, if_pos rfl]
    exact tracks_empty

theorem bestTxns_pulled (nonces : NoncesOf m.cachedBest.lastNonces (accepted lifetime))
    (called : m.bestTxns c = some (m', result)) :
    ∃ consumed rest vars, (m.served c).bestTxns = some (consumed ++ rest) ∧
      Pulled c.filter c.limit c.maxBytes m.chainId (accepted (m.lifetimeBase lifetime c))
        ⟨(m.served c).lastNonces, m.txnCache, 0, []⟩ consumed rest vars ∧
      result = vars.result ∧
      m' = { m with txnCache := vars.txnCache,
                    cachedBest := if vars.result.isEmpty then ⟨none, c.now, .empty⟩
                      else { m.served c with bestTxns := some rest, lastNonces := vars.lastNonces } } := by
  obtain ⟨iter, rest, vars, servedIter, ran, rfl, rfl⟩ := bestTxns_eq_some called
  obtain ⟨consumed, rfl, pulled⟩ := pullLoop_pulled (served_nonces nonces c) ran
  exact ⟨consumed, rest, vars, servedIter, pulled, rfl, rfl⟩

theorem servedLaws (nonces : NoncesOf m.cachedBest.lastNonces (accepted lifetime))
    (called : m.bestTxns c = some (m', result)) : ServedLaws m lifetime c m' result := by
  obtain ⟨consumed, rest, vars, servedIter, pulled, rfl, rfl⟩ := bestTxns_pulled nonces called
  have returned := pulled.result
  have total := pulled.totalBytes
  simp only [List.nil_append, Nat.zero_add] at returned total
  refine ⟨⟨consumed, rest, servedIter, returned, ?_, ?_, ?_, ?_⟩, ?_, ?_⟩
  · intro k pulledBefore
    simpa using pulled.underBudget k pulledBefore
  · rcases pulled.stops with spent | ended | full
    · exact .inl spent
    · exact .inr (.inl ended)
    · right; right
      simpa [LoopVars.underBudget, ← total, returned] using full
  · rw [accepted_append]
    exact isRun_keepAll _ _ (isRun_keepAll _ _ (isRun_nil _ _) _) _
  · intro nonempty
    have kept : vars.result.isEmpty = false := by simpa using nonempty
    rw [accepted_append]
    exact ⟨by simp [kept], by simpa [kept] using pulled.nonces⟩
  · exact pulled.withinLimit (Nat.zero_le _)
  · intro empty
    simp [empty]

theorem nonces_lifetimeAfter (nonces : NoncesOf m.cachedBest.lastNonces (accepted lifetime))
    (called : m.bestTxns c = some (m', result)) :
    NoncesOf m'.cachedBest.lastNonces (accepted (m.lifetimeAfter lifetime c m' result)) := by
  have laws := servedLaws nonces called
  obtain ⟨consumed, rest, servedIter, -, -, -, -, kept⟩ := laws.pulls
  unfold lifetimeAfter
  split
  · rename_i empty
    rw [(laws.endsWhenEmpty empty).2]
    exact tracks_empty
  · rename_i nonempty
    obtain ⟨restKept, tracked⟩ := kept nonempty
    rw [servedIter, restKept, Option.getD_some, Option.getD_some, pulledBy_append]
    exact tracked

end Mempool

theorem nonces_of_trace {cacheTtl chainId createdAt : Nat} {evs : List (BestTxnsCall × List VerifiedTxn)}
    {g : Mempool × List PoolTxn}
    (run : Trace stepPulled (fun _ _ => True) (Mempool.new cacheTtl chainId createdAt, []) evs g) :
    NoncesOf g.1.cachedBest.lastNonces (accepted g.2) :=
  Trace.invariant (fun g _ => NoncesOf g.1.cachedBest.lastNonces (accepted g.2)) tracks_empty
    (fun g _ c _ g' nonces _ stepped => by
      obtain ⟨⟨m', result⟩, called, same⟩ := Option.map_eq_some_iff.mp stepped
      obtain ⟨rfl, -⟩ := Prod.mk.inj same
      exact Mempool.nonces_lifetimeAfter nonces called) run

/-- Along every run of `best_txns` from `Mempool::new`, recorded beside the
pulls of each iterator's lifetime, `last_nonces` holds the lifetime's last
accepted nonce of every sender, and every next call obeys `ServedLaws`. -/
theorem bestTxns_nonce_discipline {cacheTtl chainId createdAt : Nat}
    {evs : List (BestTxnsCall × List VerifiedTxn)} {m : Mempool}
    (run : Trace Mempool.step (fun _ _ => True) (Mempool.new cacheTtl chainId createdAt) evs m) :
    ∃ lifetime, Trace stepPulled (fun _ _ => True) (Mempool.new cacheTtl chainId createdAt, []) evs (m, lifetime) ∧
      NoncesOf m.cachedBest.lastNonces (accepted lifetime) ∧
      ∀ c m' result, m.bestTxns c = some (m', result) → ServedLaws m lifetime c m' result := by
  obtain ⟨lifetime, recorded⟩ := trace_pulled run []
  have nonces := nonces_of_trace recorded
  exact ⟨lifetime, recorded, nonces, fun _ _ _ called => Mempool.servedLaws nonces called⟩

/-- Two calls within the cache TTL: the first pulls two transactions of
sender 1 and stops at its limit; the second goes on with the same iterator,
skips sender 1's nonce 3, which does not follow nonce 1, and takes sender 2's
nonce 0. -/
theorem bestTxns_nonce_discipline_after_two_pulls :
    let calls : List BestTxnsCall :=
      [⟨none, 2, 1000, 10, [some ⟨1, 0, 7, 100⟩, some ⟨1, 1, 8, 100⟩, some ⟨1, 3, 9, 100⟩, some ⟨2, 0, 10, 100⟩]⟩,
        ⟨none, 5, 1000, 11, []⟩]
    let results : List (List VerifiedTxn) := [[⟨100, 1, 0, 1⟩, ⟨100, 1, 1, 1⟩], [⟨100, 2, 0, 1⟩]]
    ∃ m, run Mempool.step (Mempool.new 1000 1 0) calls = some (m, results) ∧
      ∃ lifetime, Trace stepPulled (fun _ _ => True) (Mempool.new 1000 1 0, []) (calls.zip results) (m, lifetime) ∧
        NoncesOf m.cachedBest.lastNonces (accepted lifetime) ∧
        ∀ c m' result, m.bestTxns c = some (m', result) → ServedLaws m lifetime c m' result := by
  intro calls results
  have shape : (run Mempool.step (Mempool.new 1000 1 0) calls).map Prod.snd = some results := by decide +kernel
  obtain ⟨⟨m, rs⟩, ran, rfl⟩ := Option.map_eq_some_iff.mp shape
  exact ⟨m, ran, bestTxns_nonce_discipline (Trace.of_run ran)⟩

end GravitySdk.GravityNode
