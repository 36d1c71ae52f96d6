/- The best-transactions feed of the gravity node's mempool.
   digest: Mempool::best_txns of bin/gravity_node/src/mempool.rs with the
   CachedBest it keeps under its mutex: the pool's best-transactions iterator,
   its creation time and the last nonce yielded per sender, recreated on TTL
   expiry or after a call that returned nothing. The iterator is the list of
   what its successive next calls return, so any pool behaviour, including a
   None followed by later transactions, is one such list. Panics (an overflow
   of last + 1 or of the byte total) are none. -/

import GravitySdk.Lib.KeyedRun
import GravitySdk.Lib.Checked

set_option autoImplicit false
set_option relaxedAutoImplicit false

namespace GravitySdk.GravityNode

open GravitySdk.Lib GravitySdk.Lib.KeyedRun

/-- A 20-byte account address, read as a big-endian number. -/
abbrev Address := Nat

/-- A 32-byte transaction hash. -/
abbrev TxnHash := Nat

/-- A pooled transaction as `best_txns` reads it: its sender, nonce and hash,
and the length of its EIP-2718 encoding. -/
structure PoolTxn where
  sender : Address
  nonce : Nat
  hash : TxnHash
  encodedLen : Nat
  deriving DecidableEq, Repr

/-- The `VerifiedTxn` that `to_verified_txn` builds: the encoded bytes (their
length), the sender's account, the nonce and the chain id. -/
structure VerifiedTxn where
  bytesLen : Nat
  sender : Nat
  sequenceNumber : Nat
  chainId : Nat
  deriving DecidableEq, Repr

/-- `convert_account`: the 20 bytes placed at the end of 32 zero bytes, which
keeps the address's number. -/
def convertAccount (acc : Address) : Nat := acc

/-- `to_verified_txn`. -/
def toVerifiedTxn (poolTxn : PoolTxn) (chainId : Nat) : VerifiedTxn :=
  ⟨poolTxn.encodedLen, convertAccount poolTxn.sender, poolTxn.nonce, chainId⟩

/-- A `BestTransactions` iterator: what its successive `next` calls return;
once the list is spent every `next` returns `None`. -/
abbrev BestIter := List (Option PoolTxn)

/-- The caller's filter over `(sender, nonce, hash)`. -/
abbrev TxnFilter := Option (Nat × Nat × TxnHash → Bool)

/-- Whether the filter lets a transaction through; no filter lets all. -/
def passes (filter : TxnFilter) (poolTxn : PoolTxn) : Bool :=
  match filter with
  | none => true
  | some f => f (convertAccount poolTxn.sender, poolTxn.nonce, poolTxn.hash)

/-- The shared `txn_cache`: each selected transaction by hash, with the time it
was inserted. -/
abbrev TxnCache := KeyMap TxnHash (Nat × PoolTxn)

/-- `CachedBest`. -/
structure CachedBest where
  bestTxns : Option BestIter
  createdAt : Nat
  lastNonces : KeyMap Address Nat

/-- The fields of `Mempool` that `best_txns` reads and writes, with
`cache_ttl()` read once. -/
structure Mempool where
  txnCache : TxnCache
  cachedBest : CachedBest
  cacheTtl : Nat
  chainId : Nat

/-- `CachedBest::new`: no iterator, created (as if) already expired. -/
def CachedBest.new (cacheTtl now : Nat) : CachedBest := ⟨none, now - cacheTtl - 1, .empty⟩

/-- `CachedBest::is_expired`. -/
def CachedBest.isExpired (cachedBest : CachedBest) (cacheTtl now : Nat) : Bool :=
  decide (cacheTtl < now - cachedBest.createdAt)

/-- `Mempool::new`, as far as `best_txns` sees it. -/
def Mempool.new (cacheTtl chainId now : Nat) : Mempool :=
  ⟨.empty, CachedBest.new cacheTtl now, cacheTtl, chainId⟩

/-! ### The pull loop -/

/-- What the `while` loop of `best_txns` carries from one pull to the next. -/
structure LoopVars where
  lastNonces : KeyMap Address Nat
  txnCache : TxnCache
  totalBytes : Nat
  result : List VerifiedTxn

/-- The loop's condition. -/
def LoopVars.underBudget (vars : LoopVars) (limit maxBytes : Nat) : Bool :=
  decide (vars.result.length < limit) && decide (vars.totalBytes < maxBytes)

/-- The nonce test: a sender seen before must continue with `last + 1`. -/
def consecutive (lastNonces : KeyMap Address Nat) (poolTxn : PoolTxn) : Option Bool :=
  match lastNonces.get poolTxn.sender with
  | none => some true
  | some last => (Checked.add UInt64.size last 1).map fun next => decide (poolTxn.nonce = next)

/-- The loop body for one pulled transaction: skipped when its nonce does not
follow, otherwise anchored and then offered to the filter. -/
def visit (filter : TxnFilter) (now chainId : Nat) (poolTxn : PoolTxn) (vars : LoopVars) : Option LoopVars :=
  match consecutive vars.lastNonces poolTxn with
  | none => none
  | some false => some vars
  | some true =>
      -- the anchor is recorded before the filter runs
      let anchored := vars.lastNonces.insert poolTxn.sender poolTxn.nonce
      if passes filter poolTxn then
        (Checked.add UInt64.size vars.totalBytes poolTxn.encodedLen).map fun total =>
          ⟨anchored, vars.txnCache.insert poolTxn.hash (now, poolTxn), total,
            vars.result ++ [toVerifiedTxn poolTxn chainId]⟩
      else some { vars with lastNonces := anchored }

/-- The `while` loop of `best_txns`: the iterator left and the loop's variables. -/
def pullLoop (filter : TxnFilter) (limit maxBytes now chainId : Nat) :
    BestIter → LoopVars → Option (BestIter × LoopVars)
  | iter, vars =>
      if vars.underBudget limit maxBytes then
        match iter with
        | [] => some ([], vars)
        | none :: rest => some (rest, vars)
        | some poolTxn :: rest =>
            match visit filter now chainId poolTxn vars with
            | none => none
            | some vars' => pullLoop filter limit maxBytes now chainId rest vars'
      else some (iter, vars)

/-! ### One call -/

/-- The arguments of one `best_txns` call, with its clock reading and what
`best_transactions()` would yield should the iterator be recreated. -/
structure BestTxnsCall where
  filter : TxnFilter
  limit : Nat
  maxBytes : Nat
  now : Nat
  fresh : BestIter

namespace Mempool

/-- Whether the call recreates the iterator. -/
def refreshed (m : Mempool) (c : BestTxnsCall) : Bool :=
  m.cachedBest.isExpired m.cacheTtl c.now || m.cachedBest.bestTxns.isNone

/-- The `CachedBest` the call serves from. -/
def served (m : Mempool) (c : BestTxnsCall) : CachedBest :=
  if m.refreshed c then ⟨some c.fresh, c.now, .empty⟩ else m.cachedBest

/-- `Mempool::best_txns`. -/
def bestTxns (m : Mempool) (c : BestTxnsCall) : Option (Mempool × List VerifiedTxn) :=
  let served := m.served c
  match served.bestTxns with
  | none => none
  | some iter =>
      match pullLoop c.filter c.limit c.maxBytes c.now m.chainId iter ⟨served.lastNonces, m.txnCache, 0, []⟩ with
      | none => none
      | some (rest, vars) =>
          let cachedBest : CachedBest :=
            if vars.result.isEmpty then ⟨none, c.now, .empty⟩
            else { served with bestTxns := some rest, lastNonces := vars.lastNonces }
          some ({ m with txnCache := vars.txnCache, cachedBest := cachedBest }, vars.result)

/-- `best_txns` as a step of the mempool. -/
def step (m : Mempool) (c : BestTxnsCall) : Option (Mempool × List VerifiedTxn) := m.bestTxns c

end Mempool

/-! ### What one pull does

The loop's decisions are those of the per-sender nonce rule of
`Lib/KeyedRun.lean` over the transactions pulled, with `last_nonces` holding
the rule's last accepted nonce of every sender. -/

/-- The transactions the nonce rule accepts from a lifetime's pulls. -/
def accepted (pulled : List PoolTxn) : List PoolTxn := keepAll PoolTxn.sender PoolTxn.nonce [] pulled

/-- What a call returns for the transactions it pulls, the lifetime having
accepted `kept` before: the newly accepted ones the filter passes. -/
def returnedOf (filter : TxnFilter) (chainId : Nat) (kept pulled : List PoolTxn) : List VerifiedTxn :=
  ((keptAfter PoolTxn.sender PoolTxn.nonce kept pulled).filter (passes filter)).map (toVerifiedTxn · chainId)

/-- The payload bytes of returned transactions. -/
def bytesOf (txns : List VerifiedTxn) : Nat := (txns.map VerifiedTxn.bytesLen).sum

/-- `last_nonces` holds the last accepted nonce of every sender of `kept`. -/
abbrev NoncesOf (lastNonces : KeyMap Address Nat) (kept : List PoolTxn) : Prop :=
  Tracks PoolTxn.sender PoolTxn.nonce lastNonces kept

@[simp] theorem bytesOf_nil : bytesOf [] = 0 := rfl

@[simp] theorem bytesOf_append (l l' : List VerifiedTxn) : bytesOf (l ++ l') = bytesOf l + bytesOf l' := by
  simp [bytesOf]

@[simp] theorem returnedOf_nil (filter : TxnFilter) (chainId : Nat) (kept : List PoolTxn) :
    returnedOf filter chainId kept [] = [] := by
  simp [returnedOf]

theorem returnedOf_single (filter : TxnFilter) (chainId : Nat) (kept : List PoolTxn) (poolTxn : PoolTxn) :
    returnedOf filter chainId kept [poolTxn] =
      if continues PoolTxn.sender PoolTxn.nonce kept poolTxn && passes filter poolTxn then
        [toVerifiedTxn poolTxn chainId] else [] := by
  unfold returnedOf
  rw [keptAfter_cons, keptAfter_nil, List.append_nil]
  cases continues PoolTxn.sender PoolTxn.nonce kept poolTxn <;> cases passed : passes filter poolTxn <;>
    simp [passed]

theorem returnedOf_cons (filter : TxnFilter) (chainId : Nat) (kept : List PoolTxn) (poolTxn : PoolTxn)
    (pulled : List PoolTxn) :
    returnedOf filter chainId kept (poolTxn :: pulled) =
      returnedOf filter chainId kept [poolTxn] ++
        returnedOf filter chainId (keep PoolTxn.sender PoolTxn.nonce kept poolTxn) pulled := by
  unfold returnedOf
  rw [keptAfter_cons, keptAfter_cons, keptAfter_nil, List.append_nil, List.filter_append, List.map_append]

theorem consecutive_eq_some {lastNonces : KeyMap Address Nat} {kept : List PoolTxn}
    (nonces : NoncesOf lastNonces kept) {poolTxn : PoolTxn} {follows : Bool}
    (tested : consecutive lastNonces poolTxn = some follows) :
    continues PoolTxn.sender PoolTxn.nonce kept poolTxn = follows := by
  rw [nonces.continues_eq]
  unfold consecutive at tested
  cases found : lastNonces.get poolTxn.sender with
  | none =>
      rw [found] at tested
      exact Option.some.inj tested
  | some last =>
      rw [found] at tested
      obtain ⟨next, added, rfl⟩ := Option.map_eq_some_iff.mp tested
      obtain ⟨-, rfl⟩ := Checked.add_eq_some.mp added
      rfl

section Visit

variable {filter : TxnFilter} {now chainId : Nat} {poolTxn : PoolTxn} {vars vars' : LoopVars}

theorem visit_eq_some (visited : visit filter now chainId poolTxn vars = some vars') :
    (consecutive vars.lastNonces poolTxn = some false ∧ vars' = vars) ∨
    (consecutive vars.lastNonces poolTxn = some true ∧ passes filter poolTxn = false ∧
      vars' = { vars with lastNonces := vars.lastNonces.insert poolTxn.sender poolTxn.nonce }) ∨
    (consecutive vars.lastNonces poolTxn = some true ∧ passes filter poolTxn = true ∧
      vars.totalBytes + poolTxn.encodedLen < UInt64.size ∧
      vars' = ⟨vars.lastNonces.insert poolTxn.sender poolTxn.nonce, vars.txnCache.insert poolTxn.hash (now, poolTxn),
        vars.totalBytes + poolTxn.encodedLen, vars.result ++ [toVerifiedTxn poolTxn chainId]⟩) := by
  unfold visit at visited
  split at visited
  · cases visited
  · rename_i skipped
    exact .inl ⟨skipped, (Option.some.inj visited).symm⟩
  · rename_i follows
    split at visited
    · rename_i passed
      obtain ⟨total, added, rfl⟩ := Option.map_eq_some_iff.mp visited
      obtain ⟨fits, rfl⟩ := Checked.add_eq_some.mp added
      exact .inr (.inr ⟨follows, passed, fits, rfl⟩)
    · rename_i rejected
      exact .inr (.inl ⟨follows, by simpa using rejected, (Option.some.inj visited).symm⟩)

/-- A pull panics only on an overflow: of `last + 1` for a sender whose last
nonce is `u64::MAX`, or of the byte total at a transaction it returns. -/
theorem visit_eq_none_iff : visit filter now chainId poolTxn vars = none ↔
    (∃ last, vars.lastNonces.get poolTxn.sender = some last ∧ UInt64.size ≤ last + 1) ∨
    (consecutive vars.lastNonces poolTxn = some true ∧ passes filter poolTxn = true ∧
      UInt64.size ≤ vars.totalBytes + poolTxn.encodedLen) := by
  have nonceOverflow : consecutive vars.lastNonces poolTxn = none ↔
      ∃ last, vars.lastNonces.get poolTxn.sender = some last ∧ UInt64.size ≤ last + 1 := by
    unfold consecutive
    cases vars.lastNonces.get poolTxn.sender <;> simp
  unfold visit
  split
  · rename_i overflowed
    simp [nonceOverflow.mp overflowed]
  · rename_i skipped
    simp [skipped, ← nonceOverflow]
  · rename_i follows
    have noOverflow : ¬∃ last, vars.lastNonces.get poolTxn.sender = some last ∧ UInt64.size ≤ last + 1 := by
      rw [← nonceOverflow, follows]
      simp
    split <;> simp_all

theorem visit_spec {kept : List PoolTxn} (nonces : NoncesOf vars.lastNonces kept)
    (visited : visit filter now chainId poolTxn vars = some vars') :
    NoncesOf vars'.lastNonces (keep PoolTxn.sender PoolTxn.nonce kept poolTxn) ∧
      vars'.result = vars.result ++ returnedOf filter chainId kept [poolTxn] ∧
      vars'.totalBytes = vars.totalBytes + bytesOf (returnedOf filter chainId kept [poolTxn]) := by
  rw [returnedOf_single]
  rcases visit_eq_some visited with ⟨skipped, rfl⟩ | ⟨follows, rejected, rfl⟩ | ⟨follows, passed, -, rfl⟩
  · have stops := consecutive_eq_some nonces skipped
    exact ⟨by simpa [keep, stops] using nonces, by simp [stops], by simp [stops]⟩
  · have goes := consecutive_eq_some nonces follows
    exact ⟨by simpa [keep, goes] using nonces.insert poolTxn, by simp [rejected], by simp [rejected]⟩
  · have goes := consecutive_eq_some nonces follows
    refine ⟨by simpa [keep, goes] using nonces.insert poolTxn, by simp [goes, passed], ?_⟩
    simp [goes, passed, bytesOf, toVerifiedTxn]

end Visit

/-! ### What the loop does -/

/-- What a run of the loop from `vars` to `vars'` did, having pulled `consumed`
and left `rest`: the map of last nonces follows the nonce rule over the pulled
transactions, the result and the byte total grew by what the rule accepted and
the filter passed, every pull came while the budget had room, and the loop
stopped only at the budget or at the iterator's `None`. -/
structure Pulled (filter : TxnFilter) (limit maxBytes chainId : Nat) (kept : List PoolTxn) (vars : LoopVars)
    (consumed rest : BestIter) (vars' : LoopVars) : Prop where
  nonces : NoncesOf vars'.lastNonces (keepAll PoolTxn.sender PoolTxn.nonce kept consumed.reduceOption)
  result : vars'.result = vars.result ++ returnedOf filter chainId kept consumed.reduceOption
  totalBytes : vars'.totalBytes = vars.totalBytes + bytesOf (returnedOf filter chainId kept consumed.reduceOption)
  underBudget : ∀ k < consumed.length,
    (vars.result ++ returnedOf filter chainId kept (consumed.take k).reduceOption).length < limit ∧
      vars.totalBytes + bytesOf (returnedOf filter chainId kept (consumed.take k).reduceOption) < maxBytes
  stops : rest = [] ∨ consumed.getLast? = some none ∨ vars'.underBudget limit maxBytes = false
  withinLimit : vars.result.length ≤ limit → vars'.result.length ≤ limit

namespace Pulled

variable {filter : TxnFilter} {limit maxBytes chainId : Nat} {kept : List PoolTxn} {vars : LoopVars}

theorem of_stop {iter : BestIter} (nonces : NoncesOf vars.lastNonces kept)
    (full : vars.underBudget limit maxBytes = false) :
    Pulled filter limit maxBytes chainId kept vars [] iter vars where
  nonces := nonces
  result := by simp [List.reduceOption]
  totalBytes := by simp [List.reduceOption]
  underBudget := fun _ none => absurd none (Nat.not_lt_zero _)
  stops := .inr (.inr full)
  withinLimit := id

theorem of_spent (nonces : NoncesOf vars.lastNonces kept) :
    Pulled filter limit maxBytes chainId kept vars [] [] vars where
  nonces := nonces
  result := by simp [List.reduceOption]
  totalBytes := by simp [List.reduceOption]
  underBudget := fun _ none => absurd none (Nat.not_lt_zero _)
  stops := .inl rfl
  withinLimit := id

theorem of_none {rest : BestIter} (nonces : NoncesOf vars.lastNonces kept)
    (room : vars.underBudget limit maxBytes = true) :
    Pulled filter limit maxBytes chainId kept vars [none] rest vars where
  nonces := nonces
  result := by simp [List.reduceOption]
  totalBytes := by simp [List.reduceOption]
  underBudget := by
    intro k first
    obtain rfl : k = 0 := by simpa using first
    simpa [List.reduceOption, LoopVars.underBudget] using room
  stops := .inr (.inl rfl)
  withinLimit := id

theorem visit {now : Nat} {poolTxn : PoolTxn} {vars'' vars' : LoopVars} {consumed rest : BestIter}
    (nonces : NoncesOf vars.lastNonces kept) (room : vars.underBudget limit maxBytes = true)
    (visited : GravityNode.visit filter now chainId poolTxn vars = some vars'')
    (next : Pulled filter limit maxBytes chainId (keep PoolTxn.sender PoolTxn.nonce kept poolTxn) vars''
      consumed rest vars') :
    Pulled filter limit maxBytes chainId kept vars (some poolTxn :: consumed) rest vars' := by
  obtain ⟨-, grown, added⟩ := visit_spec nonces visited
  have roomy : vars.result.length < limit ∧ vars.totalBytes < maxBytes := by
    simpa [LoopVars.underBudget] using room
  have pulledOne : (some poolTxn :: consumed).reduceOption = poolTxn :: consumed.reduceOption := by
    simp [List.reduceOption]
  constructor
  case nonces => rw [pulledOne, keepAll_cons]; exact next.nonces
  case result =>
      rw [next.result, grown, pulledOne, returnedOf_cons filter chainId kept poolTxn consumed.reduceOption,
        List.append_assoc]
  case totalBytes =>
      rw [next.totalBytes, added, pulledOne, returnedOf_cons filter chainId kept poolTxn consumed.reduceOption,
        bytesOf_append,
        Nat.add_assoc]
  case underBudget =>
      intro k pulledBefore
      cases k with
      | zero => simpa [List.reduceOption] using roomy
      | succ k =>
          have before := next.underBudget k (by simpa using pulledBefore)
          have takeOne : (List.take (k + 1) (some poolTxn :: consumed)).reduceOption =
              poolTxn :: (consumed.take k).reduceOption := by
            simp [List.reduceOption]
          rw [takeOne, returnedOf_cons filter chainId kept poolTxn (consumed.take k).reduceOption,
            ← List.append_assoc, bytesOf_append, ← Nat.add_assoc, ← grown, ← added]
          exact before
  case stops =>
      rcases next.stops with spent | ended | full
      · exact .inl spent
      · right; left
        cases consumed with
        | nil => cases ended
        | cons _ _ => simpa using ended
      · exact .inr (.inr full)
  case withinLimit =>
      intro _
      apply next.withinLimit
      rw [grown, List.length_append, returnedOf_single]
      split <;> simp <;> omega

end Pulled

theorem pullLoop_pulled {filter : TxnFilter} {limit maxBytes now chainId : Nat} {kept : List PoolTxn}
    {iter rest : BestIter} {vars vars' : LoopVars} (nonces : NoncesOf vars.lastNonces kept)
    (ran : pullLoop filter limit maxBytes now chainId iter vars = some (rest, vars')) :
    ∃ consumed, iter = consumed ++ rest ∧ Pulled filter limit maxBytes chainId kept vars consumed rest vars' := by
  induction iter generalizing vars kept with
  | nil =>
      simp only [pullLoop] at ran
      split at ran
      · obtain ⟨rfl, rfl⟩ := Prod.mk.inj (Option.some.inj ran)
        exact ⟨[], rfl, .of_spent nonces⟩
      · rename_i full
        obtain ⟨rfl, rfl⟩ := Prod.mk.inj (Option.some.inj ran)
        exact ⟨[], rfl, .of_stop nonces (by simpa using full)⟩
  | cons head iter ih =>
      cases head with
      | none =>
          simp only [pullLoop] at ran
          split at ran
          · rename_i room
            obtain ⟨rfl, rfl⟩ := Prod.mk.inj (Option.some.inj ran)
            exact ⟨[none], rfl, .of_none nonces room⟩
          · rename_i full
            obtain ⟨rfl, rfl⟩ := Prod.mk.inj (Option.some.inj ran)
            exact ⟨[], rfl, .of_stop nonces (by simpa using full)⟩
      | some poolTxn =>
          simp only [pullLoop] at ran
          split at ran
          · rename_i room
            split at ran
            · cases ran
            · rename_i vars'' visited
              obtain ⟨consumed, split, pulled⟩ := ih (visit_spec nonces visited).1 ran
              exact ⟨some poolTxn :: consumed, by rw [split]; rfl, .visit nonces room visited pulled⟩
          · rename_i full
            obtain ⟨rfl, rfl⟩ := Prod.mk.inj (Option.some.inj ran)
            exact ⟨[], rfl, .of_stop nonces (by simpa using full)⟩

/-! ### One call -/

namespace Mempool

variable {m m' : Mempool} {c : BestTxnsCall} {result : List VerifiedTxn}

theorem served_of_refreshed (fresh : m.refreshed c = true) : m.served c = ⟨some c.fresh, c.now, .empty⟩ := by
  simp [served, fresh]

theorem served_of_kept (kept : m.refreshed c = false) : m.served c = m.cachedBest := by
  simp [served, kept]

theorem bestTxns_eq_some (called : m.bestTxns c = some (m', result)) :
    ∃ iter rest vars, (m.served c).bestTxns = some iter ∧
      pullLoop c.filter c.limit c.maxBytes c.now m.chainId iter ⟨(m.served c).lastNonces, m.txnCache, 0, []⟩ =
        some (rest, vars) ∧
      result = vars.result ∧
      m' = { m with txnCache := vars.txnCache,
                    cachedBest := if vars.result.isEmpty then ⟨none, c.now, .empty⟩
                      else { m.served c with bestTxns := some rest, lastNonces := vars.lastNonces } } := by
  simp only [bestTxns] at called
  split at called
  · cases called
  · rename_i iter servedIter
    split at called
    · cases called
    · rename_i rest vars ran
      obtain ⟨rfl, rfl⟩ := Prod.mk.inj (Option.some.inj called)
      exact ⟨iter, rest, vars, servedIter, ran, rfl, rfl⟩

/-- A first pull skips a nonce that does not follow and keeps the sender's run:
nonce 9 after 7 is dropped, 8 then goes out. -/
example : ((Mempool.new 1000 1 0).bestTxns ⟨none, 5, 1000, 2,
    [some ⟨1, 7, 99, 10⟩, some ⟨1, 9, 98, 10⟩, some ⟨1, 8, 97, 10⟩]⟩).map Prod.snd =
      some [⟨10, 1, 7, 1⟩, ⟨10, 1, 8, 1⟩] := by
  decide

end Mempool

end GravitySdk.GravityNode
