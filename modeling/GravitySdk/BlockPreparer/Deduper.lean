/- The hash-and-authenticator transaction deduper.
   digest: TxnHashAndAuthenticatorDeduper::dedup of
   txn_hash_and_authenticator_deduper.rs. A first pass marks the
   transactions whose sender and sequence number another transaction of the
   block shares; with none marked the block is returned as it is; otherwise
   only the marked transactions are hashed, and a marked transaction is
   dropped when an earlier marked one has the same committed hash and
   authenticator. When the pair determines the sender and sequence number
   (the hash covers the raw transaction), this is the plain filter that keeps
   the first transaction of each pair. -/

import Mathlib
import GravitySdk.Lib.Fibers
import GravitySdk.Lib.KeyMap

set_option autoImplicit false
set_option relaxedAutoImplicit false

namespace GravitySdk.BlockPreparer

open GravitySdk.Lib GravitySdk.Lib.Fibers

/-- What the deduper reads of a `SignedTransaction`. -/
structure TxnAccess (τ A H Auth : Type) where
  sender : τ → A
  sequenceNumber : τ → Nat
  committedHash : τ → H
  authenticator : τ → Auth

variable {τ A H Auth : Type} [DecidableEq A] (acc : TxnAccess τ A H Auth)

namespace TxnAccess

/-- The key of the first pass: `(txn.sender(), txn.sequence_number())`. -/
def senderAndSeq (t : τ) : A × Nat := (acc.sender t, acc.sequenceNumber t)

/-- The key of the last pass: `(txn.committed_hash(), txn.authenticator())`. -/
def hashAndAuthenticator (t : τ) : H × Auth := (acc.committedHash t, acc.authenticator t)

end TxnAccess

namespace TxnHashAndAuthenticatorDeduper

/-- The first loop of `dedup`: `seen` maps a sender and sequence number to the
index of its first transaction; a later transaction with the same key marks
itself and that first one as possible duplicates. -/
def markPossibleDuplicates (seen : KeyMap (A × Nat) Nat) (isPossibleDuplicate : Bool)
    (possibleDuplicates : List Bool) : Nat → List τ → Bool × List Bool
  | _, [] => (isPossibleDuplicate, possibleDuplicates)
  | i, txn :: rest =>
      match seen.get (acc.senderAndSeq txn) with
      | none => markPossibleDuplicates (seen.insert (acc.senderAndSeq txn) i) isPossibleDuplicate possibleDuplicates (i + 1) rest
      | some firstIndex =>
          markPossibleDuplicates seen true ((possibleDuplicates.set firstIndex true).set i true) (i + 1) rest

section Hashes

variable [DecidableEq H] [DecidableEq Auth]

/-- The last loop of `dedup`: an unhashed transaction is kept; a hashed one is
kept when `seen_hashes.insert` finds its pair new. -/
def filterDuplicates (seenHashes : List (H × Auth)) : List (Option (H × Auth) × τ) → List τ
  | [] => []
  | (none, txn) :: rest => txn :: filterDuplicates seenHashes rest
  | (some hashAndAuth, txn) :: rest =>
      if hashAndAuth ∉ seenHashes then txn :: filterDuplicates (hashAndAuth :: seenHashes) rest
      else filterDuplicates seenHashes rest

/-- `TxnHashAndAuthenticatorDeduper::dedup`. -/
def dedup (transactions : List τ) : List τ :=
  let (isPossibleDuplicate, possibleDuplicates) :=
    markPossibleDuplicates acc KeyMap.empty false (List.replicate transactions.length false) 0 transactions
  if !isPossibleDuplicate then transactions
  else
    let hashAndAuthenticators := (possibleDuplicates.zip transactions).map fun (needHash, txn) =>
      if needHash then some (acc.hashAndAuthenticator txn) else none
    filterDuplicates [] (hashAndAuthenticators.zip transactions)

/-- That the committed hash and the authenticator determine the sender and
the sequence number: the hash is taken over the raw transaction, which holds
both. -/
def PairDeterminesKey : Prop :=
  ∀ t t', acc.hashAndAuthenticator t = acc.hashAndAuthenticator t' → acc.senderAndSeq t = acc.senderAndSeq t'

end Hashes

/-- The marks of the first loop, read off a list: a transaction is marked when
another transaction of the list has its sender and sequence number. -/
def mark (l : List τ) (t : τ) : Bool := decide (2 ≤ (l.map acc.senderAndSeq).count (acc.senderAndSeq t))

/-- `seen` after the transactions `pre`: a key without an entry is not among
their keys, and an entry is the index of a transaction with that key. -/
def Seen (seen : KeyMap (A × Nat) Nat) (pre : List τ) : Prop :=
  ∀ k, (seen.get k = none → k ∉ pre.map acc.senderAndSeq) ∧
    ∀ i, seen.get k = some i → (pre.map acc.senderAndSeq)[i]? = some k

variable {acc}

theorem two_le_count_of_two_indices {κ : Type} [BEq κ] [LawfulBEq κ] {L : List κ} {a : κ} {i j : Nat} (ne : i ≠ j)
    (atI : L[i]? = some a) (atJ : L[j]? = some a) : 2 ≤ L.count a := by
  wlog before : i < j generalizing i j
  · exact this (Ne.symm ne) atJ atI (by omega)
  have inTake : a ∈ L.take j := List.mem_of_getElem? (by rw [List.getElem?_take_of_lt before, atI])
  have inDrop : a ∈ L.drop j := List.mem_of_getElem? (by rw [List.getElem?_drop, Nat.add_zero, atJ])
  rw [← List.take_append_drop j L, List.count_append]
  have := List.count_pos_iff.mpr inTake
  have := List.count_pos_iff.mpr inDrop
  omega

theorem mark_concat_of_fresh {pre : List τ} {t : τ} (fresh : acc.senderAndSeq t ∉ pre.map acc.senderAndSeq) :
    (pre ++ [t]).map (mark acc (pre ++ [t])) = pre.map (mark acc pre) ++ [false] := by
  have counts : ∀ k ∈ pre.map acc.senderAndSeq,
      ((pre ++ [t]).map acc.senderAndSeq).count k = (pre.map acc.senderAndSeq).count k := by
    intro k mem
    have other : acc.senderAndSeq t ≠ k := fun same => fresh (same ▸ mem)
    simp [other]
  have last : mark acc (pre ++ [t]) t = false := by
    simp [mark, List.count_eq_zero_of_not_mem fresh]
  rw [List.map_append, List.map_singleton, last]
  congr 1
  refine List.map_congr_left fun x mem => ?_
  simp only [mark, counts _ (List.mem_map_of_mem mem)]

theorem mark_concat_of_seen {pre : List τ} {t : τ} {first : Nat}
    (atFirst : (pre.map acc.senderAndSeq)[first]? = some (acc.senderAndSeq t)) :
    (pre ++ [t]).map (mark acc (pre ++ [t])) = (pre.map (mark acc pre)).set first true ++ [true] := by
  have seenBefore : 1 ≤ (pre.map acc.senderAndSeq).count (acc.senderAndSeq t) :=
    List.count_pos_iff.mpr (List.mem_of_getElem? atFirst)
  have firstLt : first < pre.length := by
    have := (List.getElem?_eq_some_iff.mp atFirst).1
    simpa using this
  apply List.ext_getElem (by simp)
  intro j inL inR
  by_cases before : j < pre.length
  · have inSet : j < ((pre.map (mark acc pre)).set first true).length := by simpa using before
    rw [List.getElem_append_left inSet, List.getElem_set, List.getElem_map, List.getElem_map,
      List.getElem_append_left before]
    have last : [acc.senderAndSeq t].count (acc.senderAndSeq pre[j]) =
        if acc.senderAndSeq pre[j] = acc.senderAndSeq t then 1 else 0 := by
      split
      · next same => rw [same, List.count_singleton_self]
      · next other => exact List.count_eq_zero_of_not_mem (by simpa using other)
    simp only [mark, List.map_append, List.map_singleton, List.count_append, last]
    by_cases same : acc.senderAndSeq pre[j] = acc.senderAndSeq t
    · -- another transaction with the same key: the one `seen` points at, or one marked before
      have atJ : (pre.map acc.senderAndSeq)[j]? = some (acc.senderAndSeq t) := by
        rw [List.getElem?_map, List.getElem?_eq_getElem before, Option.map_some, same]
      simp only [same, ↓reduceIte]
      by_cases atSeen : first = j
      · rw [if_pos atSeen]
        exact decide_eq_true (by omega)
      · have twice := two_le_count_of_two_indices atSeen atFirst atJ
        rw [if_neg atSeen]
        exact (decide_eq_true (by omega)).trans (decide_eq_true twice).symm
    · have notSeen : first ≠ j := by
        rintro rfl
        have atFirst' : (pre.map acc.senderAndSeq)[first]? = some (acc.senderAndSeq pre[first]) := by
          rw [List.getElem?_map, List.getElem?_eq_getElem before, Option.map_some]
        rw [atFirst, Option.some.injEq] at atFirst'
        exact same atFirst'.symm
      rw [if_neg same, if_neg notSeen, Nat.add_zero]
  · have atEnd : j = pre.length := by simp at inL; omega
    subst atEnd
    rw [List.getElem_append_right (by simp), List.getElem_map, List.getElem_append_right (le_refl _)]
    simp only [List.length_set, List.length_map, Nat.sub_self, List.getElem_cons_zero, mark, List.map_append,
      List.map_singleton, List.count_append, List.count_singleton_self]
    exact decide_eq_true (by omega)


theorem seen_empty : Seen acc KeyMap.empty ([] : List τ) := by
  intro k
  constructor
  · intro _ mem
    simp at mem
  · intro i stored
    simp at stored

theorem Seen.insert {seen : KeyMap (A × Nat) Nat} {pre : List τ} (seenOk : Seen acc seen pre) (t : τ) :
    Seen acc (seen.insert (acc.senderAndSeq t) pre.length) (pre ++ [t]) := by
  intro k
  rw [KeyMap.get_insert]
  split
  · next same =>
      subst same
      refine ⟨fun noEntry => (by cases noEntry), fun i stored => ?_⟩
      rw [Option.some.inj stored.symm, List.map_append, List.getElem?_append_right (by simp)]
      simp
  · next other =>
      obtain ⟨absent, present⟩ := seenOk k
      refine ⟨fun noEntry mem => ?_, fun i stored => ?_⟩
      · rw [List.map_append, List.mem_append] at mem
        rcases mem with old | new
        · exact absent noEntry old
        · exact other (List.mem_singleton.mp new)
      · have at_i := present i stored
        rw [List.map_append, List.getElem?_append_left (List.getElem?_eq_some_iff.mp at_i).1, at_i]

theorem Seen.concat {seen : KeyMap (A × Nat) Nat} {pre : List τ} (seenOk : Seen acc seen pre) {t : τ} {first : Nat}
    (stored : seen.get (acc.senderAndSeq t) = some first) : Seen acc seen (pre ++ [t]) := by
  intro k
  obtain ⟨absent, present⟩ := seenOk k
  refine ⟨fun noEntry mem => ?_, fun i at_k => ?_⟩
  · rw [List.map_append, List.mem_append] at mem
    rcases mem with old | new
    · exact absent noEntry old
    · rw [List.mem_singleton.mp new, stored] at noEntry
      cases noEntry
  · have at_i := present i at_k
    rw [List.map_append, List.getElem?_append_left (List.getElem?_eq_some_iff.mp at_i).1, at_i]

/-- The first loop, from any point: after the transactions `pre`, with `seen`
recording them, the flag telling whether two of them share a key and the marks
of `pre` followed by unset marks, it ends with the flag and the marks of the
whole block. -/
theorem markPossibleDuplicates_spec (rest pre : List τ) (seen : KeyMap (A × Nat) Nat) (seenOk : Seen acc seen pre) :
    markPossibleDuplicates acc seen (decide ¬(pre.map acc.senderAndSeq).Nodup)
        (pre.map (mark acc pre) ++ List.replicate rest.length false) pre.length rest =
      (decide ¬((pre ++ rest).map acc.senderAndSeq).Nodup, (pre ++ rest).map (mark acc (pre ++ rest))) := by
  induction rest generalizing pre seen with
  | nil => simp [markPossibleDuplicates]
  | cons t rest ih =>
      have regroup : pre ++ t :: rest = (pre ++ [t]) ++ rest := by simp
      cases stored : seen.get (acc.senderAndSeq t) with
      | none =>
          have fresh : acc.senderAndSeq t ∉ pre.map acc.senderAndSeq := (seenOk _).1 stored
          have flag : decide (¬((pre ++ [t]).map acc.senderAndSeq).Nodup) =
              decide (¬(pre.map acc.senderAndSeq).Nodup) := by
            have iff : ((pre ++ [t]).map acc.senderAndSeq).Nodup ↔ (pre.map acc.senderAndSeq).Nodup := by
              rw [List.map_append, List.map_singleton, List.nodup_append]
              refine ⟨fun h => h.1, fun h => ⟨h, List.nodup_singleton _, fun a mem b single same => ?_⟩⟩
              rw [List.mem_singleton.mp single] at same
              exact fresh (same ▸ mem)
            simp only [iff]
          have marks : (pre ++ [t]).map (mark acc (pre ++ [t])) ++ List.replicate rest.length false =
              pre.map (mark acc pre) ++ List.replicate (rest.length + 1) false := by
            rw [mark_concat_of_fresh fresh, List.append_assoc, List.replicate_succ]
            rfl
          have next := ih (pre ++ [t]) _ (seenOk.insert t)
          rw [flag, marks, List.length_append, List.length_singleton] at next
          rw [regroup, ← next]
          simp only [markPossibleDuplicates, stored, List.length_cons]
      | some first =>
          have atFirst := (seenOk _).2 first stored
          have flag : decide (¬((pre ++ [t]).map acc.senderAndSeq).Nodup) = true := by
            obtain ⟨x, mem, same⟩ := List.mem_map.mp (List.mem_of_getElem? atFirst)
            simp only [List.map_append, List.map_singleton, List.nodup_append, decide_eq_true_eq]
            exact fun ⟨_, _, apart⟩ => apart _ (List.mem_map_of_mem mem) _ (List.mem_singleton_self _) same
          have firstLt : first < pre.length := by simpa using (List.getElem?_eq_some_iff.mp atFirst).1
          have marks : (pre ++ [t]).map (mark acc (pre ++ [t])) ++ List.replicate rest.length false =
              ((pre.map (mark acc pre) ++ List.replicate (rest.length + 1) false).set first true).set pre.length true := by
            rw [mark_concat_of_seen atFirst, List.set_append_left _ _ (by simpa using firstLt),
              List.set_append_right _ _ (by simp), List.length_set, List.length_map, Nat.sub_self,
              List.replicate_succ, List.set_cons_zero, List.append_assoc]
            rfl
          have next := ih (pre ++ [t]) _ (seenOk.concat stored)
          rw [flag, marks, List.length_append, List.length_singleton] at next
          rw [regroup, ← next]
          simp only [markPossibleDuplicates, stored, List.length_cons]


section Hashes

variable [DecidableEq H] [DecidableEq Auth]

end Hashes

theorem marked_of_same_pair (determines : PairDeterminesKey acc) {W rest : List τ} {x y : τ} (sub : x :: rest <:+ W)
    (later : y ∈ rest) (same : acc.hashAndAuthenticator y = acc.hashAndAuthenticator x) :
    mark acc W x = true ∧ mark acc W y = true := by
  have keys : acc.senderAndSeq y = acc.senderAndSeq x := determines y x same
  have again : acc.senderAndSeq x ∈ rest.map acc.senderAndSeq := keys ▸ List.mem_map_of_mem later
  have twice : 2 ≤ ((x :: rest).map acc.senderAndSeq).count (acc.senderAndSeq x) := by
    rw [List.map_cons, List.count_cons_self]
    have := List.count_pos_iff.mpr again
    omega
  have inW := (sub.sublist.map acc.senderAndSeq).count_le (acc.senderAndSeq x)
  exact ⟨decide_eq_true (by omega), decide_eq_true (by rw [keys]; omega)⟩

section Hashes

variable [DecidableEq H] [DecidableEq Auth]

/-- The last loop against the plain filter, over a suffix of the block: when
`seenHashes` (the pairs of the earlier marked transactions) and `seen` (the
pairs of all earlier transactions) agree on the pairs of the marked
transactions left, and no unmarked one left has its pair in `seen`, the loop
keeps what the plain filter keeps. -/
theorem filterDuplicates_eq_keepFirst (determines : PairDeterminesKey acc) (W : List τ) {suffix : List τ}
    (sub : suffix <:+ W) {seenHashes seen : List (H × Auth)}
    (agree : ∀ x ∈ suffix, (mark acc W x = true →
        (acc.hashAndAuthenticator x ∈ seenHashes ↔ acc.hashAndAuthenticator x ∈ seen)) ∧
      (mark acc W x = false → acc.hashAndAuthenticator x ∉ seen)) :
    filterDuplicates seenHashes
        (suffix.map fun x => (if mark acc W x then some (acc.hashAndAuthenticator x) else none, x)) =
      keepFirst acc.hashAndAuthenticator seen suffix := by
  induction suffix generalizing seenHashes seen with
  | nil => rfl
  | cons x rest ih =>
      have sub' : rest <:+ W := (List.suffix_cons x rest).trans sub
      -- an unmarked transaction shares its pair with no other one
      have apart : ∀ y ∈ rest, mark acc W x = false ∨ mark acc W y = false →
          acc.hashAndAuthenticator y ≠ acc.hashAndAuthenticator x := by
        intro y later unmarked same
        obtain ⟨markedX, markedY⟩ := marked_of_same_pair determines sub later same
        rcases unmarked with unmarked | unmarked
        · rw [markedX] at unmarked
          exact Bool.noConfusion unmarked
        · rw [markedY] at unmarked
          exact Bool.noConfusion unmarked
      obtain ⟨whenMarked, whenUnmarked⟩ := agree x List.mem_cons_self
      rw [List.map_cons, keepFirst]
      cases marked : mark acc W x with
      | true =>
          simp only [if_true, filterDuplicates]
          by_cases inSeen : acc.hashAndAuthenticator x ∈ seen
          · rw [if_neg (not_not.mpr ((whenMarked marked).mpr inSeen)), if_pos inSeen]
            exact ih sub' fun y later => agree y (List.mem_cons_of_mem x later)
          · rw [if_pos (fun inHashes => inSeen ((whenMarked marked).mp inHashes)), if_neg inSeen]
            refine congrArg (x :: ·) (ih sub' fun y later => ⟨fun markedY => ?_, fun unmarkedY => ?_⟩)
            · simp only [List.mem_cons, (agree y (List.mem_cons_of_mem x later)).1 markedY]
            · rw [List.mem_cons, not_or]
              exact ⟨apart y later (.inr unmarkedY), (agree y (List.mem_cons_of_mem x later)).2 unmarkedY⟩
      | false =>
          simp only [Bool.false_eq_true, if_false, filterDuplicates]
          rw [if_neg (whenUnmarked marked)]
          refine congrArg (x :: ·) (ih sub' fun y later => ⟨fun markedY => ?_, fun unmarkedY => ?_⟩)
          · rw [List.mem_cons, (agree y (List.mem_cons_of_mem x later)).1 markedY]
            simp [apart y later (.inl marked)]
          · rw [List.mem_cons, not_or]
            exact ⟨apart y later (.inl marked), (agree y (List.mem_cons_of_mem x later)).2 unmarkedY⟩

private theorem zip_map_zip_self {α β γ : Type} (f : α → β) (g : β × α → γ) (l : List α) :
    (((l.map f).zip l).map g).zip l = l.map fun x => (g (f x, x), x) := by
  induction l with
  | nil => rfl
  | cons x l ih => simp [ih]

/-- When the committed hash and authenticator determine the sender and
sequence number, `dedup` is the plain filter that keeps the first transaction
of each (committed hash, authenticator) pair, in block order: the shortcut of
returning the block when no sender and sequence number repeats, and hashing
only the marked transactions, change nothing. -/
theorem dedup_eq_keepFirst (determines : PairDeterminesKey acc) (transactions : List τ) :
    dedup acc transactions = keepFirst acc.hashAndAuthenticator [] transactions := by
  have marked := markPossibleDuplicates_spec transactions [] KeyMap.empty (seen_empty : Seen acc KeyMap.empty ([] : List τ))
  simp only [List.map_nil, List.nodup_nil, not_true_eq_false, decide_false, List.nil_append,
    List.length_nil] at marked
  unfold dedup
  rw [marked]
  by_cases nodup : (transactions.map acc.senderAndSeq).Nodup
  · have pairsNodup : (transactions.map acc.hashAndAuthenticator).Nodup := by
      rw [List.Nodup, List.pairwise_map] at nodup ⊢
      exact nodup.imp fun apart same => apart (determines _ _ same)
    simp only [nodup, not_true_eq_false, decide_false, Bool.not_false, if_true]
    exact (keepFirst_of_nodup pairsNodup fun _ _ => List.not_mem_nil).symm
  · simp only [nodup, not_false_eq_true, decide_true, Bool.not_true, Bool.false_eq_true, if_false]
    rw [zip_map_zip_self]
    exact filterDuplicates_eq_keepFirst determines transactions (List.suffix_refl _)
      fun x _ => ⟨fun _ => Iff.rfl, fun _ => List.not_mem_nil⟩

end Hashes

end TxnHashAndAuthenticatorDeduper

/-- Transactions as (sender, sequence number, authenticator) whose committed
hash is their sender and sequence number. -/
def sampleAccess : TxnAccess (Nat × Nat × Nat) Nat (Nat × Nat) Nat :=
  ⟨fun t => t.1, fun t => t.2.1, fun t => (t.1, t.2.1), fun t => t.2.2⟩

theorem sampleAccess_determines : TxnHashAndAuthenticatorDeduper.PairDeterminesKey sampleAccess :=
  fun _ _ same => (Prod.mk.inj same).1

/-- A copy of a transaction and a second signature of it, among four. -/
theorem dedup_eq_keepFirst_sample :
    TxnHashAndAuthenticatorDeduper.PairDeterminesKey sampleAccess ∧
      TxnHashAndAuthenticatorDeduper.dedup sampleAccess [(1, 0, 5), (1, 0, 5), (1, 0, 6), (2, 0, 5)] =
        keepFirst sampleAccess.hashAndAuthenticator [] [(1, 0, 5), (1, 0, 5), (1, 0, 6), (2, 0, 5)] :=
  ⟨sampleAccess_determines, TxnHashAndAuthenticatorDeduper.dedup_eq_keepFirst sampleAccess_determines _⟩

example : TxnHashAndAuthenticatorDeduper.dedup sampleAccess [(1, 0, 5), (1, 0, 5), (1, 0, 6), (2, 0, 5)] =
    [(1, 0, 5), (1, 0, 6), (2, 0, 5)] := by decide

end GravitySdk.BlockPreparer
