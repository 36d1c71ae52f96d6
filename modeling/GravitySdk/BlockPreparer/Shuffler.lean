/- The sender-aware transaction shuffler.
   digest: SenderAwareShuffler of transaction_shuffler/sender_aware.rs. The
   sliding window counts the senders of the last placed transactions; the
   pending transactions are set aside per sender and in arrival order; each
   round of the loop places the first pending transaction of a sender that
   has just left the window, else the first transaction of the rest of the
   block whose sender is not in the window (setting aside the ones before it),
   else the oldest pending transaction. A checked `usize` or `i64` overflow
   and the `expect` of an empty pending set are panics, `none`. -/

import Mathlib
import GravitySdk.Lib.Checked
import GravitySdk.Lib.Fibers
import GravitySdk.Lib.KeyMap

set_option autoImplicit false
set_option relaxedAutoImplicit false

namespace GravitySdk.BlockPreparer

open GravitySdk.Lib GravitySdk.Lib.Fibers

variable {τ A : Type} [DecidableEq A] (sender : τ → A)

/-- `PendingTransactions`: the set-aside transactions queued by sender, and
all of them in the order they were set aside.  `ordered_txns` is not kept in
step with the queues: it still lists transactions that have left them. -/
structure PendingTransactions (τ A : Type) where
  txnsBySenders : KeyMap A (List τ)
  orderedTxns : List τ

namespace PendingTransactions

/-- `PendingTransactions::new`. -/
def new : PendingTransactions τ A := ⟨KeyMap.empty, []⟩

/-- The queue of a sender, empty for a sender without an entry
(`entry(..).or_default()`). -/
def queue (p : PendingTransactions τ A) (s : A) : List τ := (p.txnsBySenders.get s).getD []

/-- `add_transaction`: the transaction joins the back of its sender's queue
and of `ordered_txns`. -/
def addTransaction (p : PendingTransactions τ A) (txn : τ) : PendingTransactions τ A :=
  ⟨p.txnsBySenders.insert (sender txn) (p.queue (sender txn) ++ [txn]), p.orderedTxns ++ [txn]⟩

/-- `remove_pending_from_sender`: pops the front of the sender's queue,
leaving `ordered_txns` as it is. -/
def removePendingFromSender (p : PendingTransactions τ A) (s : A) : Option τ × PendingTransactions τ A :=
  match p.txnsBySenders.get s with
  | some (txn :: rest) => (some txn, ⟨p.txnsBySenders.insert s rest, p.orderedTxns⟩)
  | _ => (none, p)

variable [DecidableEq τ]

/-- The loop of `remove_first_pending`: pops `ordered_txns` until a
transaction equal to the front of its sender's queue, and pops that queue. -/
def removeFirstPendingLoop (bySenders : KeyMap A (List τ)) : List τ → Option τ × PendingTransactions τ A
  | [] => (none, ⟨bySenders, []⟩)
  | txn :: rest =>
      match bySenders.get (sender txn) with
      | some senderQueue =>
          if some txn = senderQueue.head? then removePendingFromSender ⟨bySenders, rest⟩ (sender txn)
          else removeFirstPendingLoop bySenders rest
      | none => removeFirstPendingLoop bySenders rest

/-- `remove_first_pending`. -/
def removeFirstPending (p : PendingTransactions τ A) : Option τ × PendingTransactions τ A :=
  removeFirstPendingLoop sender p.txnsBySenders p.orderedTxns

end PendingTransactions

/-- `i += 1` on an `i64` in a build with overflow checks. -/
def incrI64 (i : Int) : Option Int := if i + 1 < 2 ^ 63 then some (i + 1) else none

/-- `n as i64` for a `usize`: the two's-complement reading of its low 64 bits. -/
def castI64 (n : Nat) : Int := Int.bmod n (2 ^ 64)

/-- `SlidingWindowState`: the placed transactions, the start of the window
over their last `window_size` (negative while fewer have been placed), and
the count of each sender in the window. -/
structure SlidingWindowState (τ A : Type) where
  startIndex : Int
  sendersInWindow : KeyMap A Nat
  txns : List τ

namespace SlidingWindowState

/-- `SlidingWindowState::new`: `start_index` is `-(window_size as i64)`, whose
negation overflows at `i64::MIN`. -/
def new (windowSize : Nat) : Option (SlidingWindowState τ A) :=
  if castI64 windowSize = -2 ^ 63 then none else some ⟨-castI64 windowSize, KeyMap.empty, []⟩

/-- The first half of `add_transaction`: once the window is full, the sender
of the transaction at `start_index` leaves it, its count decremented (a
checked `usize` subtraction); a missing transaction there is the `expect`. -/
def dropOldest (st : SlidingWindowState τ A) : Option (KeyMap A Nat) :=
  if 0 ≤ st.startIndex then do
    let oldest ← st.txns[st.startIndex.toNat]?
    match st.sendersInWindow.get (sender oldest) with
    | some count => do
        let count ← Checked.sub count 1
        pure (st.sendersInWindow.insert (sender oldest) count)
    | none => pure st.sendersInWindow
  else pure st.sendersInWindow

/-- `add_transaction`: slides the window by one and places the transaction. -/
def addTransaction (st : SlidingWindowState τ A) (txn : τ) : Option (SlidingWindowState τ A) := do
  let senders ← dropOldest sender st
  let count ← Checked.add UInt64.size ((senders.get (sender txn)).getD 0) 1
  let startIndex ← incrI64 st.startIndex
  pure ⟨startIndex, senders.insert (sender txn) count, st.txns ++ [txn]⟩

/-- `has_conflict`: the sender has a transaction in the window. -/
def hasConflict (st : SlidingWindowState τ A) (addr : A) : Bool :=
  ((st.sendersInWindow.get addr).map (· != 0)).getD false

/-- `last_dropped_sender`: the sender of the transaction that left the window
at the last placement, when it has no other transaction in the window. -/
def lastDroppedSender (st : SlidingWindowState τ A) : Option A :=
  if 0 < st.startIndex then
    (st.txns[(st.startIndex - 1).toNat]?.map sender).bind fun lastSender =>
      (st.sendersInWindow.get lastSender).bind fun count => if count = 0 then some lastSender else none
  else none

/-- `num_txns`. -/
def numTxns (st : SlidingWindowState τ A) : Nat := st.txns.length

/-- `finalize`: the placed transactions. -/
def finalize (st : SlidingWindowState τ A) : List τ := st.txns

end SlidingWindowState

/-- The state the loop of `shuffle` carries: the window, the pending
transactions and the rest of the block (`orig_txns`). -/
structure ShuffleState (τ A : Type) where
  window : SlidingWindowState τ A
  pending : PendingTransactions τ A
  orig : List τ

/-- The first step of `next_to_add`: the first pending transaction of the
sender that has just left the window. -/
def fromDroppedSender (window : SlidingWindowState τ A) (pending : PendingTransactions τ A) :
    Option τ × PendingTransactions τ A :=
  match window.lastDroppedSender sender with
  | some s => pending.removePendingFromSender s
  | none => (none, pending)

/-- The `while let` of `next_to_add` over `orig_txns`: the first transaction
whose sender is not in the window; the ones before it are set aside. -/
def scanOrig (window : SlidingWindowState τ A) :
    PendingTransactions τ A → List τ → Option τ × PendingTransactions τ A × List τ
  | pending, [] => (none, pending, [])
  | pending, txn :: rest =>
      if !window.hasConflict (sender txn) then (some txn, pending, rest)
      else scanOrig window (pending.addTransaction sender txn) rest

section Loop

variable [DecidableEq τ]

/-- The closure `next_to_add`: the transaction to place next, with the
pending transactions and the rest of the block after it; `none` is the panic
of the final `expect`. -/
def nextToAdd (window : SlidingWindowState τ A) (pending : PendingTransactions τ A) (orig : List τ) :
    Option (τ × PendingTransactions τ A × List τ) :=
  match fromDroppedSender sender window pending with
  | (some txn, pending) => some (txn, pending, orig)
  | (none, pending) =>
      match scanOrig sender window pending orig with
      | (some txn, pending, orig) => some (txn, pending, orig)
      | (none, pending, orig) =>
          match pending.removeFirstPending sender with
          | (some txn, pending) => some (txn, pending, orig)
          | (none, _) => none

/-- One round of the loop of `shuffle`: pick the next transaction and place
it in the window. -/
def placeNext (st : ShuffleState τ A) : Option (ShuffleState τ A) := do
  let (txn, pending, orig) ← nextToAdd sender st.window st.pending st.orig
  let window ← st.window.addTransaction sender txn
  pure ⟨window, pending, orig⟩

/-- `while sliding_window.num_txns() < num_transactions`, with `fuel` rounds
at most. -/
def shuffleLoop (numTransactions : Nat) : Nat → ShuffleState τ A → Option (ShuffleState τ A)
  | 0, st => if st.window.numTxns < numTransactions then none else some st
  | fuel + 1, st =>
      if st.window.numTxns < numTransactions then (placeNext sender st).bind (shuffleLoop numTransactions fuel)
      else some st

/-- `SenderAwareShuffler::shuffle`: an empty block and a window of size zero
are returned as they are; otherwise the loop runs once per transaction. -/
def shuffle (conflictWindowSize : Nat) (txns : List τ) : Option (List τ) :=
  if txns.isEmpty then some txns
  else if conflictWindowSize = 0 then some txns
  else do
    let window ← SlidingWindowState.new conflictWindowSize
    let st ← shuffleLoop sender txns.length txns.length ⟨window, .new, txns⟩
    pure st.window.finalize

end Loop

namespace PendingTransactions

/-- Every queue is a suffix of its sender's part of `ordered_txns`: what
`remove_first_pending` relies on to find the front of a queue by scanning
`ordered_txns`. -/
def Queued (p : PendingTransactions τ A) : Prop := ∀ a, p.queue a <:+ fiber sender a p.orderedTxns

variable {sender}

@[simp] theorem queue_new (s : A) : (new : PendingTransactions τ A).queue s = [] := rfl

@[simp] theorem queue_addTransaction (p : PendingTransactions τ A) (txn : τ) (a : A) :
    (p.addTransaction sender txn).queue a = if a = sender txn then p.queue a ++ [txn] else p.queue a := by
  unfold addTransaction queue
  rw [KeyMap.get_insert]
  split
  · next same => subst same; rfl
  · rfl

@[simp] theorem orderedTxns_addTransaction (p : PendingTransactions τ A) (txn : τ) :
    (p.addTransaction sender txn).orderedTxns = p.orderedTxns ++ [txn] := rfl

theorem queue_mk_insert (m : KeyMap A (List τ)) (ordered : List τ) (s a : A) (q : List τ) :
    (⟨m.insert s q, ordered⟩ : PendingTransactions τ A).queue a =
      if a = s then q else (⟨m, ordered⟩ : PendingTransactions τ A).queue a := by
  simp only [queue, KeyMap.get_insert]
  split <;> rfl

theorem removePendingFromSender_of_cons {p : PendingTransactions τ A} {s : A} {txn : τ} {rest : List τ}
    (front : p.queue s = txn :: rest) :
    p.removePendingFromSender s = (some txn, ⟨p.txnsBySenders.insert s rest, p.orderedTxns⟩) := by
  have stored : p.txnsBySenders.get s = some (txn :: rest) := by
    unfold queue at front
    cases h : p.txnsBySenders.get s with
    | none => simp [h] at front
    | some q => rw [h, Option.getD_some] at front; rw [front]
  simp only [removePendingFromSender, stored]

theorem removePendingFromSender_of_nil {p : PendingTransactions τ A} {s : A} (empty : p.queue s = []) :
    p.removePendingFromSender s = (none, p) := by
  unfold removePendingFromSender
  unfold queue at empty
  cases h : p.txnsBySenders.get s with
  | none => rfl
  | some q =>
      rw [h, Option.getD_some] at empty
      subst empty
      rfl

theorem queued_new : Queued sender (new : PendingTransactions τ A) := fun _ => List.nil_suffix

theorem Queued.addTransaction {p : PendingTransactions τ A} (queued : Queued sender p) (txn : τ) :
    Queued sender (p.addTransaction sender txn) := by
  intro a
  rw [queue_addTransaction, orderedTxns_addTransaction, fiber_append]
  by_cases same : a = sender txn
  · subst same
    obtain ⟨t, joined⟩ := queued (sender txn)
    exact ⟨t, by rw [if_pos rfl, ← joined, List.append_assoc]; simp [fiber]⟩
  · have other : fiber sender a [txn] = [] := by simp [fiber, Ne.symm same]
    rw [if_neg same, other, List.append_nil]
    exact queued a

theorem Queued.sender_eq {p : PendingTransactions τ A} (queued : Queued sender p) {a : A} {txn : τ}
    (mem : txn ∈ p.queue a) : sender txn = a :=
  (mem_fiber.mp ((queued a).subset mem)).2

theorem Queued.removePendingFromSender {p : PendingTransactions τ A} (queued : Queued sender p) {s : A} {txn : τ}
    {rest : List τ} (front : p.queue s = txn :: rest) :
    Queued sender ⟨p.txnsBySenders.insert s rest, p.orderedTxns⟩ := by
  intro a
  rw [queue_mk_insert]
  split
  · next same =>
      subst same
      exact (List.suffix_cons txn rest).trans (front ▸ queued a)
  · exact queued a

variable [DecidableEq τ]

theorem removeFirstPendingLoop_spec (bySenders : KeyMap A (List τ)) (l : List τ)
    (queued : Queued sender ⟨bySenders, l⟩)
    (waiting : ∃ a, (⟨bySenders, l⟩ : PendingTransactions τ A).queue a ≠ []) :
    ∃ txn rest l', (⟨bySenders, l⟩ : PendingTransactions τ A).queue (sender txn) = txn :: rest ∧
      removeFirstPendingLoop sender bySenders l = (some txn, ⟨bySenders.insert (sender txn) rest, l'⟩) ∧
      Queued sender ⟨bySenders.insert (sender txn) rest, l'⟩ := by
  induction l with
  | nil =>
      obtain ⟨a, nonempty⟩ := waiting
      exact absurd (List.suffix_nil.mp (queued a)) nonempty
  | cons t l ih =>
      -- the queue of every other sender is a suffix of the rest of the scan
      have others : ∀ a, a ≠ sender t →
          (⟨bySenders, l⟩ : PendingTransactions τ A).queue a <:+ fiber sender a l := by
        intro a other
        have := queued a
        rwa [fiber_cons_of_ne l (Ne.symm other)] at this
      cases stored : bySenders.get (sender t) with
      | none =>
          have empty : (⟨bySenders, l⟩ : PendingTransactions τ A).queue (sender t) = [] := by
            simp [queue, stored]
          have queued' : Queued sender ⟨bySenders, l⟩ := by
            intro a
            by_cases same : a = sender t
            · subst same
              rw [empty]
              exact List.nil_suffix
            · exact others a same
          obtain ⟨txn, rest, l', front, loop, after⟩ := ih queued' waiting
          refine ⟨txn, rest, l', front, ?_, after⟩
          simp only [removeFirstPendingLoop, stored, loop]
      | some senderQueue =>
          have tQueue : (⟨bySenders, l⟩ : PendingTransactions τ A).queue (sender t) = senderQueue := by
            simp [queue, stored]
          have tSuffix : senderQueue <:+ t :: fiber sender (sender t) l := by
            have wasQueued := queued (sender t)
            have tQueue' : (⟨bySenders, t :: l⟩ : PendingTransactions τ A).queue (sender t) = senderQueue := by
              simp [queue, stored]
            rwa [tQueue', fiber_cons_self] at wasQueued
          by_cases hit : some t = senderQueue.head?
          · obtain ⟨rest, rfl⟩ := List.head?_eq_some_iff.mp hit.symm
            have restSuffix : rest <:+ fiber sender (sender t) l := by
              rcases List.suffix_cons_iff.mp tSuffix with whole | later
              · rw [(List.cons.inj whole).2]
              · exact (List.suffix_cons t rest).trans later
            refine ⟨t, rest, l, tQueue, ?_, ?_⟩
            · simp only [removeFirstPendingLoop, stored, hit, if_true]
              exact removePendingFromSender_of_cons tQueue
            · intro a
              rw [queue_mk_insert]
              split
              · next same => subst same; exact restSuffix
              · next other => exact others a other
          · have queued' : Queued sender ⟨bySenders, l⟩ := by
              intro a
              by_cases same : a = sender t
              · subst same
                rw [tQueue]
                rcases List.suffix_cons_iff.mp tSuffix with whole | later
                · exact absurd (by rw [whole]; rfl) hit
                · exact later
              · exact others a same
            obtain ⟨txn, rest, l', front, loop, after⟩ := ih queued' waiting
            refine ⟨txn, rest, l', front, ?_, after⟩
            simp only [removeFirstPendingLoop, stored, hit, if_false, loop]

end PendingTransactions

namespace SlidingWindowState

/-- The count of a sender in the window as `senders_in_window` records it,
zero for a sender without an entry. -/
def count (st : SlidingWindowState τ A) (a : A) : Nat := (st.sendersInWindow.get a).getD 0

/-- `Tracks w st`: `start_index` is `w` before the number of placed
transactions, and `senders_in_window` counts each sender among the last `w`
of them. -/
structure Tracks (w : Nat) (st : SlidingWindowState τ A) : Prop where
  start : st.startIndex = st.txns.length - w
  counted : ∀ a, st.count a = (fiber sender a (window w st.txns)).length

variable {sender}

theorem hasConflict_iff (st : SlidingWindowState τ A) (a : A) : st.hasConflict a = true ↔ 0 < st.count a := by
  unfold hasConflict count
  cases st.sendersInWindow.get a with
  | none => simp
  | some c => simp [Nat.pos_iff_ne_zero]

theorem get_of_count_pos {st : SlidingWindowState τ A} {a : A} (pos : 0 < st.count a) :
    st.sendersInWindow.get a = some (st.count a) := by
  unfold count at pos ⊢
  cases h : st.sendersInWindow.get a with
  | none => simp [h] at pos
  | some c => rfl

theorem count_of_lastDroppedSender {st : SlidingWindowState τ A} {a : A}
    (dropped : st.lastDroppedSender sender = some a) : st.count a = 0 := by
  unfold lastDroppedSender at dropped
  split_ifs at dropped
  obtain ⟨s, found, counted⟩ := Option.bind_eq_some_iff.mp dropped
  obtain ⟨c, stored, zero⟩ := Option.bind_eq_some_iff.mp counted
  split_ifs at zero with isZero
  cases zero
  simp [count, stored, isZero]

theorem counts_insert {m : KeyMap A Nat} {base : List τ} (counts : ∀ a, (m.get a).getD 0 = (fiber sender a base).length)
    (txn : τ) (a : A) :
    ((m.insert (sender txn) ((m.get (sender txn)).getD 0 + 1)).get a).getD 0 =
      (fiber sender a (base ++ [txn])).length := by
  rw [KeyMap.get_insert, fiber_append, List.length_append]
  by_cases same : a = sender txn
  · subst same
    simp [counts, fiber]
  · simp [same, counts, fiber, Ne.symm same]

theorem castI64_of_lt {n : Nat} (small : n < 2 ^ 63) : castI64 n = n :=
  Int.bmod_eq_of_le (by omega) (by omega)

omit [DecidableEq A] in
theorem new_of_lt {w : Nat} (small : w < 2 ^ 63) : new w = some (⟨-w, KeyMap.empty, []⟩ : SlidingWindowState τ A) := by
  unfold new
  rw [castI64_of_lt small, if_neg (by omega)]

theorem tracks_new (w : Nat) : Tracks sender w (⟨-w, KeyMap.empty, []⟩ : SlidingWindowState τ A) :=
  ⟨by simp, fun _ => by simp [count, window, fiber]⟩

theorem dropOldest_of_short {st : SlidingWindowState τ A} (short : st.startIndex < 0) :
    dropOldest sender st = some st.sendersInWindow := by
  simp [dropOldest, not_le.mpr short]

theorem dropOldest_of_full {st : SlidingWindowState τ A} {oldest : τ} (start : 0 ≤ st.startIndex)
    (at_start : st.txns[st.startIndex.toNat]? = some oldest) (inWindow : 0 < st.count (sender oldest)) :
    dropOldest sender st = some (st.sendersInWindow.insert (sender oldest) (st.count (sender oldest) - 1)) := by
  simp only [dropOldest, if_pos start, at_start, get_of_count_pos inWindow, Option.bind_eq_bind, Option.bind_some]
  rw [show Checked.sub (st.count (sender oldest)) 1 = some (st.count (sender oldest) - 1) from
    Checked.sub_eq_some.mpr ⟨inWindow, rfl⟩]
  rfl

theorem addTransaction_of_dropOldest {st : SlidingWindowState τ A} {senders : KeyMap A Nat} {txn : τ}
    (drop : dropOldest sender st = some senders) (countFits : (senders.get (sender txn)).getD 0 + 1 < UInt64.size)
    (startFits : st.startIndex + 1 < 2 ^ 63) :
    st.addTransaction sender txn =
      some ⟨st.startIndex + 1, senders.insert (sender txn) ((senders.get (sender txn)).getD 0 + 1), st.txns ++ [txn]⟩ := by
  have incr : incrI64 st.startIndex = some (st.startIndex + 1) := if_pos startFits
  simp only [addTransaction, drop, incr, Option.bind_eq_bind, Option.bind_some,
    Checked.add_eq_some.mpr ⟨countFits, rfl⟩, Option.pure_def]

theorem txns_of_addTransaction {st st' : SlidingWindowState τ A} {txn : τ}
    (added : st.addTransaction sender txn = some st') : st'.txns = st.txns ++ [txn] := by
  simp only [addTransaction, Option.bind_eq_bind, Option.bind_eq_some_iff, Option.pure_def, Option.some.injEq] at added
  obtain ⟨_, -, _, -, _, -, rfl⟩ := added
  rfl

theorem Tracks.addTransaction {w : Nat} {st : SlidingWindowState τ A} (tracks : Tracks sender w st) (pos : 0 < w)
    (fits : st.txns.length + 1 < 2 ^ 63) (txn : τ) :
    ∃ st', st.addTransaction sender txn = some st' ∧ st'.txns = st.txns ++ [txn] ∧ Tracks sender w st' ∧
      ∀ a, 0 < st.count a → 0 < st'.count a ∨ st'.lastDroppedSender sender = some a := by
  have startFits : st.startIndex + 1 < 2 ^ 63 := by rw [tracks.start]; omega
  have windowLength : (window w st.txns).length ≤ st.txns.length := (window_suffix w st.txns).length_le
  by_cases full : w ≤ st.txns.length
  · obtain ⟨oldest, rest, at_start, win, win'⟩ := window_concat_of_le txn pos full
    have startNat : st.startIndex.toNat = st.txns.length - w := by rw [tracks.start]; omega
    have oldCount : st.count (sender oldest) = (fiber sender (sender oldest) rest).length + 1 := by
      rw [tracks.counted, win, fiber_cons_self, List.length_cons]
    -- after the oldest transaction leaves, the map counts the rest of the window
    have dropped : ∀ a, ((st.sendersInWindow.insert (sender oldest) (st.count (sender oldest) - 1)).get a).getD 0 =
        (fiber sender a rest).length := by
      intro a
      rw [KeyMap.get_insert]
      by_cases same : a = sender oldest
      · subst same
        simp [oldCount]
      · rw [if_neg same]
        have := tracks.counted a
        rwa [win, fiber_cons_of_ne rest (Ne.symm same)] at this
    have restLength : (fiber sender (sender txn) rest).length ≤ st.txns.length := by
      have : rest.length < st.txns.length := by
        have := congrArg List.length win
        simp only [List.length_cons] at this
        omega
      exact (List.length_filter_le _ _).trans this.le
    have startPos : 0 ≤ st.startIndex := by rw [tracks.start]; omega
    have countFits : ((st.sendersInWindow.insert (sender oldest) (st.count (sender oldest) - 1)).get (sender txn)).getD 0
        + 1 < UInt64.size := by
      rw [dropped]
      simp only [UInt64.size]
      omega
    rw [addTransaction_of_dropOldest (dropOldest_of_full startPos (startNat ▸ at_start) (by omega)) countFits startFits]
    refine ⟨_, rfl, rfl, ⟨?_, fun a => ?_⟩, fun a inWindow => ?_⟩
    · simp only [List.length_append, List.length_singleton, tracks.start]
      omega
    · rw [win', count]
      exact counts_insert dropped txn a
    · by_cases stays : 0 < (fiber sender a (rest ++ [txn])).length
      · left
        rw [count, counts_insert dropped txn a]
        exact stays
      · right
        have none : (fiber sender a (rest ++ [txn])).length = 0 := by omega
        have left : a = sender oldest := by
          by_contra other
          have := tracks.counted a
          rw [win, fiber_cons_of_ne rest (Ne.symm other)] at this
          simp only [fiber_append, List.length_append] at none
          omega
        subst left
        have notTxn : sender txn ≠ sender oldest := by
          intro same
          simp [fiber, same] at none
        have restZero : (fiber sender (sender oldest) rest).length = 0 := by
          simp only [fiber_append, List.length_append] at none
          omega
        have back : (st.txns ++ [txn])[((st.startIndex + 1) - 1).toNat]? = some oldest := by
          rw [show ((st.startIndex + 1) - 1).toNat = st.txns.length - w by rw [tracks.start]; omega,
            List.getElem?_append_left (by omega), at_start]
        simp only [lastDroppedSender, show (0 : Int) < st.startIndex + 1 by omega, if_true, back,
          Option.map_some, Option.bind_some, KeyMap.get_insert, if_neg (Ne.symm notTxn),
          oldCount, restZero]
  · have short : st.startIndex < 0 := by rw [tracks.start]; omega
    have whole : window w st.txns = st.txns := by
      simp [window, show st.txns.length - w = 0 by omega]
    have counts : ∀ a, (st.sendersInWindow.get a).getD 0 = (fiber sender a st.txns).length := by
      intro a
      rw [← whole]
      exact tracks.counted a
    have countFits : (st.sendersInWindow.get (sender txn)).getD 0 + 1 < UInt64.size := by
      rw [counts]
      have := List.length_filter_le (fun x => decide (sender x = sender txn)) st.txns
      simp only [UInt64.size, fiber] at this ⊢
      omega
    rw [addTransaction_of_dropOldest (dropOldest_of_short short) countFits startFits]
    refine ⟨_, rfl, rfl, ⟨?_, fun a => ?_⟩, fun a inWindow => .inl ?_⟩
    · simp only [List.length_append, List.length_singleton, tracks.start]
      omega
    · rw [window_concat_of_lt txn (by omega), count]
      exact counts_insert counts txn a
    · rw [count, counts_insert counts txn a, fiber_append, List.length_append]
      have := tracks.counted a
      rw [whole] at this
      omega

end SlidingWindowState

end GravitySdk.BlockPreparer
