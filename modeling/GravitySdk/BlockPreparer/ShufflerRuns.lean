/- Whole runs of the sender-aware shuffler.
   digest: One round of the loop of SenderAwareShuffler::shuffle keeps an
   invariant: the window tracks the last `w` placed transactions, each queue
   is a suffix of its sender's part of `ordered_txns`, the placed, pending
   and remaining transactions of each sender make up that sender's
   transactions of the block in order, and a sender with pending transactions
   is in the window or has just left it. From it: the shuffle does not panic,
   it keeps the order of each sender's transactions and so permutes the
   block, it repeats a sender of the window only when every transaction still
   to place has its sender there too, and it keeps a block of distinct
   senders as it is. -/

import Mathlib
import GravitySdk.BlockPreparer.Shuffler
import GravitySdk.Lib.Fibers

set_option autoImplicit false
set_option relaxedAutoImplicit false

namespace GravitySdk.BlockPreparer

open GravitySdk.Lib GravitySdk.Lib.Fibers

variable {τ A : Type} [DecidableEq A] (sender : τ → A)

/-- `pending'` and `orig'` hold what `pending` and `orig` held except
`taken`, each sender's transactions in the same order. -/
def Moves (pending : PendingTransactions τ A) (orig taken : List τ) (pending' : PendingTransactions τ A)
    (orig' : List τ) : Prop :=
  ∀ a, fiber sender a taken ++ pending'.queue a ++ fiber sender a orig' = pending.queue a ++ fiber sender a orig

/-- What holds between two rounds of the loop of `shuffle` on `input` with a
window of `w`. -/
structure Shuffling (w : Nat) (input : List τ) (st : ShuffleState τ A) : Prop where
  tracks : st.window.Tracks sender w
  queued : st.pending.Queued sender
  flow : ∀ a, fiber sender a st.window.txns ++ st.pending.queue a ++ fiber sender a st.orig = fiber sender a input
  waiting : ∀ a, st.pending.queue a ≠ [] → 0 < st.window.count a ∨ st.window.lastDroppedSender sender = some a

/-- Every placement so far that repeated a sender of its window came only
when every transaction placed after it, pending or left in the block had its
sender in that window. -/
def SpreadSoFar (w : Nat) (st : ShuffleState τ A) : Prop :=
  ∀ pre txn post, st.window.txns = pre ++ txn :: post → sender txn ∈ (window w pre).map sender →
    ∀ a, fiber sender a post ++ st.pending.queue a ++ fiber sender a st.orig ≠ [] → a ∈ (window w pre).map sender

variable {sender}

theorem Moves.trans {p p' p'' : PendingTransactions τ A} {o o' o'' taken : List τ}
    (first : Moves sender p o [] p' o') (second : Moves sender p' o' taken p'' o'') :
    Moves sender p o taken p'' o'' := by
  intro a
  rw [second a, ← first a, fiber_nil, List.nil_append]

theorem Shuffling.mem_window_iff {w : Nat} {input : List τ} {st : ShuffleState τ A}
    (inv : Shuffling sender w input st) (a : A) :
    a ∈ (window w st.window.txns).map sender ↔ st.window.hasConflict a = true := by
  rw [SlidingWindowState.hasConflict_iff, inv.tracks.counted, length_fiber_pos]

theorem scanOrig_spec (window : SlidingWindowState τ A) {pending pending' : PendingTransactions τ A}
    {orig orig' : List τ} {r : Option τ} (scan : scanOrig sender window pending orig = (r, pending', orig'))
    (queued : pending.Queued sender) (covered : ∀ a, pending.queue a ≠ [] → window.hasConflict a = true) :
    pending'.Queued sender ∧ (∀ a, pending'.queue a ≠ [] → window.hasConflict a = true) ∧
      Moves sender pending orig r.toList pending' orig' ∧ (∀ txn ∈ r, window.hasConflict (sender txn) = false) ∧
      (r = none → orig' = []) := by
  induction orig generalizing pending with
  | nil =>
      simp only [scanOrig, Prod.mk.injEq] at scan
      obtain ⟨rfl, rfl, rfl⟩ := scan
      exact ⟨queued, covered, fun a => by simp, by simp, fun _ => rfl⟩
  | cons t rest ih =>
      by_cases conflict : window.hasConflict (sender t) = true
      · have next : scanOrig sender window (pending.addTransaction sender t) rest = (r, pending', orig') := by
          simpa [scanOrig, conflict] using scan
        have covered' : ∀ a, (pending.addTransaction sender t).queue a ≠ [] → window.hasConflict a = true := by
          intro a nonempty
          rw [PendingTransactions.queue_addTransaction] at nonempty
          split at nonempty
          · next same => rw [same]; exact conflict
          · exact covered a nonempty
        obtain ⟨queued', covered'', moves, free, ends⟩ := ih next (queued.addTransaction t) covered'
        refine ⟨queued', covered'', fun a => ?_, free, ends⟩
        rw [moves a, PendingTransactions.queue_addTransaction]
        by_cases same : a = sender t
        · subst same
          simp
        · simp [same, Ne.symm same]
      · have free : window.hasConflict (sender t) = false := by simpa using conflict
        simp only [scanOrig, free, Bool.not_false, if_true, Prod.mk.injEq] at scan
        obtain ⟨rfl, rfl, rfl⟩ := scan
        refine ⟨queued, covered, fun a => ?_, by simpa using free, fun h => by cases h⟩
        by_cases same : a = sender t
        · subst same
          have empty : pending.queue (sender t) = [] := by
            by_contra nonempty
            exact conflict (covered _ nonempty)
          simp [empty]
        · simp [fiber, Ne.symm same]

theorem fromDroppedSender_spec (window : SlidingWindowState τ A) {pending pending' : PendingTransactions τ A}
    {r : Option τ} (orig : List τ) (picked : fromDroppedSender sender window pending = (r, pending'))
    (queued : pending.Queued sender)
    (waiting : ∀ a, pending.queue a ≠ [] → 0 < window.count a ∨ window.lastDroppedSender sender = some a) :
    pending'.Queued sender ∧ Moves sender pending orig r.toList pending' orig ∧
      (∀ txn ∈ r, window.hasConflict (sender txn) = false ∧
        ∀ a, pending'.queue a ≠ [] → 0 < window.count a ∨ a = sender txn) ∧
      (r = none → pending' = pending ∧ ∀ a, pending.queue a ≠ [] → window.hasConflict a = true) := by
  unfold fromDroppedSender at picked
  cases dropped : window.lastDroppedSender sender with
  | none =>
      simp only [dropped, Prod.mk.injEq] at picked
      obtain ⟨rfl, rfl⟩ := picked
      refine ⟨queued, fun a => by simp, by simp, fun _ => ⟨rfl, fun a nonempty => ?_⟩⟩
      rcases waiting a nonempty with inWindow | isDropped
      · exact (SlidingWindowState.hasConflict_iff window a).mpr inWindow
      · exact absurd (dropped.symm.trans isDropped) (by simp)
  | some s =>
      simp only [dropped] at picked
      have zero := SlidingWindowState.count_of_lastDroppedSender dropped
      cases front : pending.queue s with
      | nil =>
          rw [PendingTransactions.removePendingFromSender_of_nil front, Prod.mk.injEq] at picked
          obtain ⟨rfl, rfl⟩ := picked
          refine ⟨queued, fun a => by simp, by simp, fun _ => ⟨rfl, fun a nonempty => ?_⟩⟩
          rcases waiting a nonempty with inWindow | isDropped
          · exact (SlidingWindowState.hasConflict_iff window a).mpr inWindow
          · obtain rfl : s = a := Option.some.inj (dropped.symm.trans isDropped)
            exact absurd front nonempty
      | cons txn rest =>
          rw [PendingTransactions.removePendingFromSender_of_cons front, Prod.mk.injEq] at picked
          obtain ⟨rfl, rfl⟩ := picked
          have own : sender txn = s := queued.sender_eq (front ▸ List.mem_cons_self)
          refine ⟨queued.removePendingFromSender front, fun a => ?_, fun t mem => ?_, fun h => by cases h⟩
          · rw [PendingTransactions.queue_mk_insert]
            by_cases same : a = s
            · subst same
              simp [front, fiber, own]
            · simp [same, fiber, own, Ne.symm same]
          · obtain rfl : t = txn := (Option.mem_some_iff.mp mem).symm
            refine ⟨?_, fun a nonempty => ?_⟩
            · rw [own, Bool.eq_false_iff]
              intro conflict
              have := (SlidingWindowState.hasConflict_iff window s).mp conflict
              omega
            · rw [PendingTransactions.queue_mk_insert] at nonempty
              split at nonempty
              · next same => exact .inr (same.trans own.symm)
              · next other =>
                  rcases waiting a nonempty with inWindow | isDropped
                  · exact .inl inWindow
                  · exact absurd (Option.some.inj (dropped.symm.trans isDropped)) (Ne.symm other)

theorem count_pos_of_last {w : Nat} {st : SlidingWindowState τ A} (tracks : st.Tracks sender w) (pos : 0 < w)
    {pre : List τ} {txn : τ} (last : st.txns = pre ++ [txn]) : 0 < st.count (sender txn) := by
  rw [tracks.counted, length_fiber_pos, last]
  exact List.mem_map_of_mem (mem_window_concat txn pos)

theorem Shuffling.flow_grouped {w : Nat} {input : List τ} {st : ShuffleState τ A} (inv : Shuffling sender w input st)
    (a : A) : fiber sender a st.window.txns ++ (st.pending.queue a ++ fiber sender a st.orig) = fiber sender a input := by
  rw [← List.append_assoc]
  exact inv.flow a

theorem Shuffling.numTxns_le {w : Nat} {input : List τ} {st : ShuffleState τ A} (inv : Shuffling sender w input st) :
    st.window.numTxns ≤ input.length :=
  length_le_of_fibers inv.flow_grouped

theorem Shuffling.fiber_of_done {w : Nat} {input : List τ} {st : ShuffleState τ A} (inv : Shuffling sender w input st)
    (done : st.window.numTxns = input.length) (a : A) :
    st.pending.queue a ++ fiber sender a st.orig = [] ∧ fiber sender a st.window.txns = fiber sender a input := by
  have none : st.pending.queue a ++ fiber sender a st.orig = [] := extra_eq_nil inv.flow_grouped done.ge a
  refine ⟨none, ?_⟩
  have := inv.flow a
  rwa [List.append_assoc, none, List.append_nil] at this

theorem shuffling_start (w : Nat) (input : List τ) :
    Shuffling sender w input ⟨⟨-w, KeyMap.empty, []⟩, .new, input⟩ :=
  ⟨SlidingWindowState.tracks_new w, PendingTransactions.queued_new, fun a => by simp, fun a nonempty => by simp at nonempty⟩

variable [DecidableEq τ]

theorem removeFirstPending_spec {p : PendingTransactions τ A} (queued : p.Queued sender)
    (waiting : ∃ a, p.queue a ≠ []) :
    ∃ txn p', p.removeFirstPending sender = (some txn, p') ∧ p'.Queued sender ∧ Moves sender p [] [txn] p' [] ∧
      ∀ a, p'.queue a ≠ [] → p.queue a ≠ [] := by
  obtain ⟨txn, rest, l', front, loop, after⟩ :=
    PendingTransactions.removeFirstPendingLoop_spec p.txnsBySenders p.orderedTxns queued waiting
  refine ⟨txn, _, loop, after, fun a => ?_, fun a nonempty => ?_⟩
  · rw [PendingTransactions.queue_mk_insert]
    by_cases same : a = sender txn
    · subst same
      simp only [fiber_nil, List.append_nil]
      rw [show p.queue (sender txn) = txn :: rest from front]
      simp [fiber]
    · simp only [fiber_nil, List.append_nil, if_neg same]
      simp [fiber, Ne.symm same]
      rfl
  · rw [PendingTransactions.queue_mk_insert] at nonempty
    split at nonempty
    · next same =>
        subst same
        rw [show p.queue (sender txn) = txn :: rest from front]
        simp
    · exact nonempty

theorem nextToAdd_spec {w : Nat} {input : List τ} {st : ShuffleState τ A} (inv : Shuffling sender w input st)
    (short : st.window.numTxns < input.length) :
    ∃ txn pending' orig', nextToAdd sender st.window st.pending st.orig = some (txn, pending', orig') ∧
      pending'.Queued sender ∧ Moves sender st.pending st.orig [txn] pending' orig' ∧
      (∀ a, pending'.queue a ≠ [] → 0 < st.window.count a ∨ a = sender txn) ∧
      (st.window.hasConflict (sender txn) = true →
        orig' = [] ∧ ∀ a, pending'.queue a ≠ [] → st.window.hasConflict a = true) := by
  rcases dropped : fromDroppedSender sender st.window st.pending with ⟨_ | txn, p1⟩
  case some =>
    obtain ⟨queued, moves, picked, -⟩ := fromDroppedSender_spec st.window st.orig dropped inv.queued inv.waiting
    obtain ⟨free, covered⟩ := picked txn rfl
    refine ⟨txn, p1, st.orig, by simp only [nextToAdd, dropped], queued, moves, covered, fun conflict => ?_⟩
    exact absurd conflict (by simp [free])
  case none =>
    obtain ⟨-, -, -, untouched⟩ := fromDroppedSender_spec st.window st.orig dropped inv.queued inv.waiting
    obtain ⟨rfl, covered⟩ := untouched rfl
    rcases scanned : scanOrig sender st.window st.pending st.orig with ⟨_ | txn, p2, o2⟩
    case some =>
      obtain ⟨queued, covered', moves, free, -⟩ := scanOrig_spec st.window scanned inv.queued covered
      refine ⟨txn, p2, o2, by simp only [nextToAdd, dropped, scanned], queued, moves, fun a nonempty => ?_,
        fun conflict => absurd conflict (by simp [free txn rfl])⟩
      exact .inl ((SlidingWindowState.hasConflict_iff _ a).mp (covered' a nonempty))
    case none =>
      obtain ⟨queued, covered', moves, -, ends⟩ := scanOrig_spec st.window scanned inv.queued covered
      obtain rfl := ends rfl
      -- the block is exhausted, so a transaction still to place is pending
      have waiting : ∃ a, p2.queue a ≠ [] := by
        by_contra none
        simp only [ne_eq, not_exists, not_not] at none
        have same : ∀ a, fiber sender a st.window.txns = fiber sender a input := by
          intro a
          rw [← inv.flow a, List.append_assoc, ← moves a, none a]
          simp
        have := (perm_of_fibers same).length_eq
        exact absurd this (Nat.ne_of_lt short)
      obtain ⟨txn, p3, removed, queued', moves', shrinks⟩ := removeFirstPending_spec queued waiting
      refine ⟨txn, p3, [], by simp only [nextToAdd, dropped, scanned, removed], queued', moves.trans moves',
        fun a nonempty => ?_, fun _ => ⟨rfl, fun a nonempty => covered' a (shrinks a nonempty)⟩⟩
      exact .inl ((SlidingWindowState.hasConflict_iff _ a).mp (covered' a (shrinks a nonempty)))

theorem placeNext_spec {w : Nat} {input : List τ} {st : ShuffleState τ A} (inv : Shuffling sender w input st)
    (pos : 0 < w) (fits : input.length < 2 ^ 63) (short : st.window.numTxns < input.length) :
    ∃ txn st', placeNext sender st = some st' ∧ st'.window.txns = st.window.txns ++ [txn] ∧
      Shuffling sender w input st' ∧ Moves sender st.pending st.orig [txn] st'.pending st'.orig ∧
      (st.window.hasConflict (sender txn) = true →
        st'.orig = [] ∧ ∀ a, st'.pending.queue a ≠ [] → st.window.hasConflict a = true) := by
  obtain ⟨txn, pending', orig', next, queued, moves, covered, greedy⟩ := nextToAdd_spec inv short
  have room : st.window.txns.length + 1 < 2 ^ 63 := by
    unfold SlidingWindowState.numTxns at short
    omega
  obtain ⟨window', added, placed, tracks', stays⟩ := inv.tracks.addTransaction pos room txn
  have flow' : ∀ a, fiber sender a window'.txns ++ pending'.queue a ++ fiber sender a orig' = fiber sender a input := by
    intro a
    rw [placed, fiber_append, List.append_assoc, List.append_assoc, ← List.append_assoc _ (pending'.queue a),
      moves a, ← List.append_assoc, inv.flow a]
  have waiting' : ∀ a, pending'.queue a ≠ [] →
      0 < window'.count a ∨ window'.lastDroppedSender sender = some a := by
    intro a nonempty
    rcases covered a nonempty with inWindow | isTaken
    · exact stays a inWindow
    · subst isTaken
      exact .inl (count_pos_of_last tracks' pos placed)
  refine ⟨txn, ⟨window', pending', orig'⟩, ?_, placed, ⟨tracks', queued, flow', waiting'⟩, moves, greedy⟩
  simp only [placeNext, next, added, Option.bind_eq_bind, Option.bind_some, Option.pure_def]

theorem shuffleLoop_of_invariant {n : Nat} {P : ShuffleState τ A → Prop}
    (step : ∀ st, P st → st.window.numTxns < n →
      ∃ st', placeNext sender st = some st' ∧ P st' ∧ st'.window.numTxns = st.window.numTxns + 1)
    (bounded : ∀ st, P st → st.window.numTxns ≤ n) {fuel : Nat} {st : ShuffleState τ A} (start : P st)
    (enough : n - st.window.numTxns ≤ fuel) :
    ∃ st', shuffleLoop sender n fuel st = some st' ∧ P st' ∧ st'.window.numTxns = n := by
  induction fuel generalizing st with
  | zero =>
      have done : st.window.numTxns = n := by
        have := bounded st start
        omega
      exact ⟨st, by simp [shuffleLoop, done], start, done⟩
  | succ fuel ih =>
      by_cases more : st.window.numTxns < n
      · obtain ⟨st', placed, kept, counted⟩ := step st start more
        obtain ⟨final, ran, holds, done⟩ := ih kept (by omega)
        exact ⟨final, by simp only [shuffleLoop, if_pos more, placed, Option.bind_some, ran], holds, done⟩
      · have done : st.window.numTxns = n := by
          have := bounded st start
          omega
        exact ⟨st, by simp [shuffleLoop, more], start, done⟩

/-- What a round did, read off the pick of `next_to_add`. -/
theorem placeNext_of_nextToAdd {st st' : ShuffleState τ A} {txn : τ} {pending' : PendingTransactions τ A}
    {orig' : List τ} (next : nextToAdd sender st.window st.pending st.orig = some (txn, pending', orig'))
    (placed : placeNext sender st = some st') :
    st'.pending = pending' ∧ st'.orig = orig' ∧ st'.window.txns = st.window.txns ++ [txn] := by
  simp only [placeNext, next, Option.bind_eq_bind, Option.bind_some, Option.bind_eq_some_iff, Option.pure_def,
    Option.some.injEq] at placed
  obtain ⟨window', added, rfl⟩ := placed
  exact ⟨rfl, rfl, SlidingWindowState.txns_of_addTransaction added⟩

theorem Shuffling.step {w : Nat} {input : List τ} (pos : 0 < w) (fits : input.length < 2 ^ 63)
    {Q : ShuffleState τ A → Prop}
    (keeps : ∀ st st' txn, Shuffling sender w input st → Q st → st.window.numTxns < input.length →
      placeNext sender st = some st' → st'.window.txns = st.window.txns ++ [txn] → Shuffling sender w input st' →
      Moves sender st.pending st.orig [txn] st'.pending st'.orig →
      (st.window.hasConflict (sender txn) = true →
        st'.orig = [] ∧ ∀ a, st'.pending.queue a ≠ [] → st.window.hasConflict a = true) → Q st')
    (st : ShuffleState τ A) (holds : Shuffling sender w input st ∧ Q st) (short : st.window.numTxns < input.length) :
    ∃ st', placeNext sender st = some st' ∧ (Shuffling sender w input st' ∧ Q st') ∧
      st'.window.numTxns = st.window.numTxns + 1 := by
  obtain ⟨txn, st', placed, txns', inv', moves, greedy⟩ := placeNext_spec holds.1 pos fits short
  refine ⟨st', placed, ⟨inv', keeps st st' txn holds.1 holds.2 short placed txns' inv' moves greedy⟩, ?_⟩
  simp [SlidingWindowState.numTxns, txns']

theorem shuffle_of_loop {w : Nat} {txns : List τ} (nonempty : txns ≠ []) (pos : 0 < w) (small : w < 2 ^ 63)
    {final : ShuffleState τ A}
    (ran : shuffleLoop sender txns.length txns.length ⟨⟨-w, KeyMap.empty, []⟩, .new, txns⟩ = some final) :
    shuffle sender w txns = some final.window.txns := by
  have notEmpty : txns.isEmpty = false := List.isEmpty_eq_false_iff.mpr nonempty
  simp only [shuffle, notEmpty, Bool.false_eq_true, if_false, if_neg (Nat.pos_iff_ne_zero.mp pos),
    SlidingWindowState.new_of_lt small, Option.bind_eq_bind, Option.bind_some, ran, Option.pure_def]
  rfl

theorem shuffle_loop_spec {w : Nat} {txns : List τ} (pos : 0 < w) (fits : txns.length < 2 ^ 63)
    {Q : ShuffleState τ A → Prop}
    (keeps : ∀ st st' txn, Shuffling sender w txns st → Q st → st.window.numTxns < txns.length →
      placeNext sender st = some st' → st'.window.txns = st.window.txns ++ [txn] → Shuffling sender w txns st' →
      Moves sender st.pending st.orig [txn] st'.pending st'.orig →
      (st.window.hasConflict (sender txn) = true →
        st'.orig = [] ∧ ∀ a, st'.pending.queue a ≠ [] → st.window.hasConflict a = true) → Q st')
    (first : Q ⟨⟨-w, KeyMap.empty, []⟩, .new, txns⟩) :
    ∃ final, shuffleLoop sender txns.length txns.length ⟨⟨-w, KeyMap.empty, []⟩, .new, txns⟩ = some final ∧
      Shuffling sender w txns final ∧ Q final ∧ final.window.numTxns = txns.length := by
  obtain ⟨final, ran, ⟨inv, holds⟩, done⟩ :=
    shuffleLoop_of_invariant (Shuffling.step pos fits keeps) (fun st holds => holds.1.numTxns_le)
      ⟨shuffling_start w txns, first⟩ (Nat.sub_le _ _)
  exact ⟨final, ran, inv, holds, done⟩

omit [DecidableEq τ] in
theorem SpreadSoFar.step {w : Nat} {input : List τ} {st st' : ShuffleState τ A} {txn : τ}
    (inv : Shuffling sender w input st) (spread : SpreadSoFar sender w st)
    (placed : st'.window.txns = st.window.txns ++ [txn])
    (moves : Moves sender st.pending st.orig [txn] st'.pending st'.orig)
    (greedy : st.window.hasConflict (sender txn) = true →
      st'.orig = [] ∧ ∀ a, st'.pending.queue a ≠ [] → st.window.hasConflict a = true) :
    SpreadSoFar sender w st' := by
  intro pre t post split conflict a remains
  rw [placed] at split
  rcases List.eq_nil_or_concat' post with rfl | ⟨post, last, rfl⟩
  · -- the transaction this round placed
    obtain ⟨rfl, same⟩ := List.append_inj' split (by simp)
    obtain rfl : txn = t := List.singleton_inj.mp same
    obtain ⟨exhausted, pendingInWindow⟩ := greedy ((inv.mem_window_iff _).mp conflict)
    simp only [exhausted, fiber_nil, List.nil_append, List.append_nil] at remains
    exact (inv.mem_window_iff a).mpr (pendingInWindow a remains)
  · -- a transaction placed before this round
    have regroup : pre ++ t :: (post ++ [last]) = (pre ++ t :: post) ++ [last] := by simp
    rw [regroup] at split
    obtain ⟨earlier, same⟩ := List.append_inj' split (by simp)
    obtain rfl : txn = last := List.singleton_inj.mp same
    refine spread pre t post earlier conflict a ?_
    rwa [fiber_append, List.append_assoc, List.append_assoc, ← List.append_assoc (fiber sender a [txn]), moves a,
      ← List.append_assoc] at remains

variable (sender)

theorem shuffle_fibers_eq (w : Nat) (txns : List τ) (small : w < 2 ^ 63) (fits : txns.length < 2 ^ 63) :
    ∃ out, shuffle sender w txns = some out ∧ ∀ a, fiber sender a out = fiber sender a txns := by
  by_cases empty : txns = []
  · subst empty
    exact ⟨([] : List τ), rfl, fun _ => rfl⟩
  by_cases zero : w = 0
  · subst zero
    exact ⟨txns, by simp [shuffle], fun _ => rfl⟩
  obtain ⟨final, ran, inv, -, done⟩ : ∃ final,
      shuffleLoop sender txns.length txns.length ⟨⟨-w, KeyMap.empty, []⟩, .new, txns⟩ = some final ∧
        Shuffling sender w txns final ∧ True ∧ final.window.numTxns = txns.length :=
    shuffle_loop_spec (Nat.pos_of_ne_zero zero) fits (fun _ _ _ _ _ _ _ _ _ _ _ => trivial) trivial
  exact ⟨final.window.txns, shuffle_of_loop empty (Nat.pos_of_ne_zero zero) small ran,
    fun a => (inv.fiber_of_done done a).2⟩

/-- For a window below `2^63` and a block of fewer than `2^63` transactions,
`shuffle` does not panic, and it returns each sender's transactions in their
order in the block; so the result is a permutation of the block. -/
theorem shuffle_keeps_sender_order (w : Nat) (txns : List τ) (small : w < 2 ^ 63) (fits : txns.length < 2 ^ 63) :
    ∃ out, shuffle sender w txns = some out ∧ out.Perm txns ∧ ∀ a, fiber sender a out = fiber sender a txns := by
  obtain ⟨out, shuffled, fibers⟩ := shuffle_fibers_eq sender w txns small fits
  exact ⟨out, shuffled, perm_of_fibers fibers, fibers⟩

/-- A block of six transactions of three senders with a window of two. -/
theorem shuffle_keeps_sender_order_three_senders :
    (2 : Nat) < 2 ^ 63 ∧ [0, 3, 6, 1, 4, 2].length < 2 ^ 63 ∧
      ∃ out, shuffle (fun n : Nat => n % 3) 2 [0, 3, 6, 1, 4, 2] = some out ∧ out.Perm [0, 3, 6, 1, 4, 2] ∧
        ∀ a, fiber (fun n : Nat => n % 3) a out = fiber (fun n : Nat => n % 3) a [0, 3, 6, 1, 4, 2] :=
  ⟨by decide, by decide, shuffle_keeps_sender_order _ 2 _ (by decide) (by decide)⟩

/-- For a window below `2^63` and a block of fewer than `2^63` transactions,
`shuffle` places a transaction whose sender is among the `w` placed before it
only when every transaction placed after it also has its sender among those
`w`: it never repeats a sender of the window while another transaction could
take the place. -/
theorem shuffle_spreads_senders (w : Nat) (txns : List τ) (small : w < 2 ^ 63) (fits : txns.length < 2 ^ 63)
    {out : List τ} (shuffled : shuffle sender w txns = some out) :
    ∀ pre txn post, out = pre ++ txn :: post → sender txn ∈ (window w pre).map sender →
      ∀ u ∈ post, sender u ∈ (window w pre).map sender := by
  intro pre txn post split conflict u later
  by_cases empty : txns = []
  · subst empty
    simp only [shuffle, List.isEmpty_nil, if_true, Option.some.injEq] at shuffled
    subst shuffled
    simp at split
  by_cases zero : w = 0
  · subst zero
    simp at conflict
  have pos := Nat.pos_of_ne_zero zero
  obtain ⟨final, ran, inv, spread, done⟩ := shuffle_loop_spec (Q := SpreadSoFar sender w) pos fits
    (fun _ _ _ inv spread _ _ placed _ moves greedy => spread.step inv placed moves greedy)
    (fun pre _ _ split => by simp at split)
  rw [shuffle_of_loop empty pos small ran, Option.some.injEq] at shuffled
  subst shuffled
  refine spread pre txn post split conflict (sender u) ?_
  have : u ∈ fiber sender (sender u) post := mem_fiber.mpr ⟨later, rfl⟩
  intro none
  simp_all

/-- The same block: placed as `[0, 1, 2, 3, 4, 6]`, where only the last
placement repeats a sender of its window. -/
theorem shuffle_spreads_senders_three_senders :
    (2 : Nat) < 2 ^ 63 ∧ [0, 3, 6, 1, 4, 2].length < 2 ^ 63 ∧
      shuffle (fun n : Nat => n % 3) 2 [0, 3, 6, 1, 4, 2] = some [0, 1, 2, 3, 4, 6] ∧
      ∀ pre txn post, [0, 1, 2, 3, 4, 6] = pre ++ txn :: post →
        txn % 3 ∈ (window 2 pre).map (fun n : Nat => n % 3) →
        ∀ u ∈ post, u % 3 ∈ (window 2 pre).map (fun n : Nat => n % 3) :=
  have shuffled : shuffle (fun n : Nat => n % 3) 2 [0, 3, 6, 1, 4, 2] = some [0, 1, 2, 3, 4, 6] := by decide
  ⟨by decide, by decide, shuffled, shuffle_spreads_senders _ 2 _ (by decide) (by decide) shuffled⟩

/-- For a window below `2^63`, a block of fewer than `2^63` transactions
with one transaction per sender comes out of `shuffle` unchanged. -/
theorem shuffle_keeps_distinct_senders (w : Nat) (txns : List τ) (small : w < 2 ^ 63) (fits : txns.length < 2 ^ 63)
    (distinct : (txns.map sender).Nodup) : shuffle sender w txns = some txns := by
  by_cases empty : txns = []
  · subst empty
    rfl
  by_cases zero : w = 0
  · subst zero
    simp [shuffle]
  have pos := Nat.pos_of_ne_zero zero
  -- nothing is ever set aside: each round places the next transaction of the block
  have keeps : ∀ st st' txn, Shuffling sender w txns st →
      (st.pending = .new ∧ st.window.txns ++ st.orig = txns) → st.window.numTxns < txns.length →
      placeNext sender st = some st' → st'.window.txns = st.window.txns ++ [txn] → Shuffling sender w txns st' →
      Moves sender st.pending st.orig [txn] st'.pending st'.orig →
      (st.window.hasConflict (sender txn) = true →
        st'.orig = [] ∧ ∀ a, st'.pending.queue a ≠ [] → st.window.hasConflict a = true) →
      st'.pending = .new ∧ st'.window.txns ++ st'.orig = txns := by
    intro st st' txn inv ⟨fresh, whole⟩ short placed _ _ _ _
    obtain ⟨t, rest, next⟩ : ∃ t rest, st.orig = t :: rest := by
      cases orig : st.orig with
      | nil =>
          rw [orig, List.append_nil] at whole
          simp [SlidingWindowState.numTxns, whole] at short
      | cons t rest => exact ⟨t, rest, rfl⟩
    have free : st.window.hasConflict (sender t) = false := by
      rw [Bool.eq_false_iff, ne_eq, ← inv.mem_window_iff]
      intro inWindow
      have placedBefore : sender t ∈ st.window.txns.map sender :=
        List.map_subset sender (window_suffix w st.window.txns).subset inWindow
      rw [← whole, next, List.map_append, List.map_cons] at distinct
      exact List.disjoint_of_nodup_append distinct placedBefore List.mem_cons_self
    have dropped : fromDroppedSender sender st.window st.pending = (none, st.pending) := by
      unfold fromDroppedSender
      cases st.window.lastDroppedSender sender with
      | none => rfl
      | some s => exact PendingTransactions.removePendingFromSender_of_nil (by rw [fresh]; rfl)
    have picked : nextToAdd sender st.window st.pending st.orig = some (t, st.pending, rest) := by
      simp only [nextToAdd, dropped, next, scanOrig, free, Bool.not_false, if_true]
    obtain ⟨pending', orig', txns'⟩ := placeNext_of_nextToAdd picked placed
    refine ⟨pending'.trans fresh, ?_⟩
    rw [txns', orig', ← whole, next, List.append_assoc, List.singleton_append]
  obtain ⟨final, ran, -, ⟨-, whole⟩, done⟩ := shuffle_loop_spec pos fits keeps ⟨rfl, List.nil_append _⟩
  have exhausted : final.orig = [] := by
    have := congrArg List.length whole
    simp only [List.length_append, SlidingWindowState.numTxns] at this done
    exact List.length_eq_zero_iff.mp (by omega)
  rw [shuffle_of_loop empty pos small ran, ← whole, exhausted, List.append_nil]

/-- Three transactions of three senders keep their order. -/
theorem shuffle_keeps_distinct_senders_three :
    (3 : Nat) < 2 ^ 63 ∧ [5, 7, 9].length < 2 ^ 63 ∧ ([5, 7, 9].map fun n : Nat => n).Nodup ∧
      shuffle (fun n : Nat => n) 3 [5, 7, 9] = some [5, 7, 9] :=
  ⟨by decide, by decide, by decide, shuffle_keeps_distinct_senders _ 3 _ (by decide) (by decide) (by decide)⟩

end GravitySdk.BlockPreparer
