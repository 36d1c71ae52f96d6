/- The transaction buffer of BlockBufferManager.
   digest: push_txns appends a batch with its gas limit; pop_txns drains the
   longest prefix that fits the count and the gas limit, or the first batch
   alone when it is too large by itself.  The running gas sum is a u64 whose
   additions are checked: overflow-checks is on in every build profile, so an
   overflowing addition panics. -/

import Mathlib

set_option autoImplicit false
set_option relaxedAutoImplicit false

namespace GravitySdk.BlockBuffer

/-- `TxnItem`: a batch of transactions with the gas limit it was pushed with
(its insertion time is never read). -/
structure TxnItem (τ : Type) where
  txns : List τ
  gasLimit : UInt64

variable {τ : Type}

/-- `push_txns`: the batch joins the back of the buffer. -/
def pushTxns (buffer : List (TxnItem τ)) (txns : List τ) (gasLimit : UInt64) : List (TxnItem τ) :=
  buffer ++ [⟨txns, gasLimit⟩]

/-- The `position` closure of `pop_txns` run over the buffer, with its running
gas sum and count: the index of the first item that would pass the gas limit or
the count limit, the length when there is none, and `none` where
`total_gas_limit + item.gas_limit` overflows (it is evaluated before the count
test). -/
def splitPoint (maxSize : Nat) (gasLimit : UInt64) :
    List (TxnItem τ) → UInt64 → Nat → Option Nat
  | [], _, count => some count
  | item :: rest, totalGasLimit, count =>
      if UInt64.size ≤ totalGasLimit.toNat + item.gasLimit.toNat then none
      else if totalGasLimit + item.gasLimit > gasLimit ∨ maxSize ≤ count then some count
      else splitPoint maxSize gasLimit rest (totalGasLimit + item.gasLimit) (count + 1)

/-- `BlockBufferManager::pop_txns`: the transactions of the drained items, in
order, and the items left; a first item over the gas limit is drained alone so
that the queue keeps moving.  `none` is the overflow panic. -/
def popTxns (buffer : List (TxnItem τ)) (maxSize : Nat) (gasLimit : UInt64) :
    Option (List τ × List (TxnItem τ)) :=
  (splitPoint maxSize gasLimit buffer 0 0).map fun splitPoint =>
    let drained := if splitPoint = 0 ∧ buffer.isEmpty = false ∧ 0 < maxSize then 1 else splitPoint
    ((buffer.take drained).flatMap TxnItem.txns, buffer.drop drained)

/-- The gas limits of some items, added up without bound. -/
def gasOf (items : List (TxnItem τ)) : Nat := (items.map fun item => item.gasLimit.toNat).sum

/-- The first `j` items may be drained together: at most `maxSize` of them,
and their gas limits add up to at most `gasLimit`. -/
def Fits (maxSize : Nat) (gasLimit : UInt64) (items : List (TxnItem τ)) (j : Nat) : Prop :=
  j ≤ maxSize ∧ j ≤ items.length ∧ gasOf (items.take j) ≤ gasLimit.toNat

instance (maxSize : Nat) (gasLimit : UInt64) (items : List (TxnItem τ)) (j : Nat) :
    Decidable (Fits maxSize gasLimit items j) :=
  inferInstanceAs (Decidable (_ ∧ _ ∧ _))

section Loop

variable {maxSize : Nat} {gasLimit : UInt64}

@[simp] theorem gasOf_nil : gasOf ([] : List (TxnItem τ)) = 0 := rfl

@[simp] theorem gasOf_cons (item : TxnItem τ) (items : List (TxnItem τ)) :
    gasOf (item :: items) = item.gasLimit.toNat + gasOf items := by
  simp [gasOf]

theorem toNat_add_of_lt {a b : UInt64} (h : a.toNat + b.toNat < UInt64.size) :
    (a + b).toNat = a.toNat + b.toNat := by
  rw [UInt64.toNat_add]
  exact Nat.mod_eq_of_lt h

theorem splitPoint_of_fits :
    ∀ (rest : List (TxnItem τ)) (total : UInt64) (count m : Nat),
      count + m ≤ maxSize → m ≤ rest.length →
      total.toNat + gasOf (rest.take m) ≤ gasLimit.toNat →
      (maxSize ≤ count + m ∨ rest.length ≤ m ∨
        gasLimit.toNat < total.toNat + gasOf (rest.take (m + 1))) →
      (m < rest.length → total.toNat + gasOf (rest.take (m + 1)) < UInt64.size) →
      splitPoint maxSize gasLimit rest total count = some (count + m)
  | [], total, count, m, _, hm, _, _, _ => by
      have : m = 0 := Nat.eq_zero_of_le_zero hm
      subst this
      simp [splitPoint]
  | item :: rest, total, count, 0, _, _, _, stop, noOverflow => by
      -- the first item is where the loop stops
      have sum : total.toNat + item.gasLimit.toNat < UInt64.size := by
        simpa using noOverflow (by simp)
      have test : total + item.gasLimit > gasLimit ∨ maxSize ≤ count := by
        rw [gt_iff_lt, UInt64.lt_iff_toNat_lt, toNat_add_of_lt sum]
        simp only [List.length_cons, List.take_succ_cons, List.take_zero, gasOf_cons, gasOf_nil]
          at stop
        omega
      simp [splitPoint, Nat.not_le.mpr sum, test]
  | item :: rest, total, count, m + 1, hcount, hm, hfit, stop, noOverflow => by
      -- the first item fits: the loop adds it and goes on
      have fitItem : total.toNat + item.gasLimit.toNat ≤ gasLimit.toNat := by
        simp only [List.take_succ_cons, gasOf_cons] at hfit
        omega
      have sum : total.toNat + item.gasLimit.toNat < UInt64.size :=
        Nat.lt_of_le_of_lt fitItem (UInt64.toNat_lt_size gasLimit)
      have test : ¬ (total + item.gasLimit > gasLimit ∨ maxSize ≤ count) := by
        rw [gt_iff_lt, UInt64.lt_iff_toNat_lt, toNat_add_of_lt sum]
        omega
      have next := splitPoint_of_fits rest (total + item.gasLimit) (count + 1) m
        (by omega) (by simpa using hm)
        (by
          rw [toNat_add_of_lt sum]
          simp only [List.take_succ_cons, gasOf_cons] at hfit
          omega)
        (by
          rw [toNat_add_of_lt sum]
          simp only [List.length_cons, List.take_succ_cons, gasOf_cons] at stop
          omega)
        (by
          intro hlt
          rw [toNat_add_of_lt sum]
          have := noOverflow (by simp; omega)
          simp only [List.take_succ_cons, gasOf_cons] at this
          omega)
      rw [splitPoint, if_neg (Nat.not_le.mpr sum), if_neg test, next]
      congr 1
      omega

theorem splitPoint_of_overflow :
    ∀ (rest : List (TxnItem τ)) (total : UInt64) (count m : Nat),
      count + m ≤ maxSize → m < rest.length →
      total.toNat + gasOf (rest.take m) ≤ gasLimit.toNat →
      UInt64.size ≤ total.toNat + gasOf (rest.take (m + 1)) →
      splitPoint maxSize gasLimit rest total count = none
  | [], _, _, _, _, hm, _, _ => absurd hm (Nat.not_lt_zero _)
  | item :: rest, total, count, 0, _, _, _, excess => by
      have excess' : UInt64.size ≤ total.toNat + item.gasLimit.toNat := by simpa using excess
      simp [splitPoint, excess']
  | item :: rest, total, count, m + 1, hcount, hm, hfit, excess => by
      have fitItem : total.toNat + item.gasLimit.toNat ≤ gasLimit.toNat := by
        simp only [List.take_succ_cons, gasOf_cons] at hfit
        omega
      have sum : total.toNat + item.gasLimit.toNat < UInt64.size :=
        Nat.lt_of_le_of_lt fitItem (UInt64.toNat_lt_size gasLimit)
      have test : ¬ (total + item.gasLimit > gasLimit ∨ maxSize ≤ count) := by
        rw [gt_iff_lt, UInt64.lt_iff_toNat_lt, toNat_add_of_lt sum]
        omega
      have next := splitPoint_of_overflow rest (total + item.gasLimit) (count + 1) m
        (by omega) (by simpa using hm)
        (by
          rw [toNat_add_of_lt sum]
          simp only [List.take_succ_cons, gasOf_cons] at hfit
          omega)
        (by
          rw [toNat_add_of_lt sum]
          simp only [List.take_succ_cons, gasOf_cons] at excess
          omega)
      rw [splitPoint, if_neg (Nat.not_le.mpr sum), if_neg test, next]

end Loop

section Drain

variable {maxSize : Nat} {gasLimit : UInt64} {buffer : List (TxnItem τ)} {n : Nat}

theorem exists_largest_fits (maxSize : Nat) (gasLimit : UInt64) (buffer : List (TxnItem τ)) :
    ∃ n, Fits maxSize gasLimit buffer n ∧ ¬ Fits maxSize gasLimit buffer (n + 1) := by
  classical
  have bounded : ∃ j, ¬ Fits maxSize gasLimit buffer (j + 1) :=
    ⟨buffer.length, fun h => by have := h.2.1; omega⟩
  refine ⟨Nat.find bounded, ?_, Nat.find_spec bounded⟩
  -- below the first count that does not fit, every count fits
  cases hfind : Nat.find bounded with
  | zero => exact ⟨Nat.zero_le _, Nat.zero_le _, by simp [gasOf]⟩
  | succ k =>
      have below := Nat.find_min bounded (show k < Nat.find bounded by omega)
      exact not_not.mp below

/-- The overflow the loop meets: the item at the largest fitting count, when
there is one, takes the sum past `2 ^ 64`. -/
def OverflowsAt (buffer : List (TxnItem τ)) (n : Nat) : Prop :=
  n < buffer.length ∧ UInt64.size ≤ gasOf (buffer.take (n + 1))

theorem splitPoint_eq_some (fits : Fits maxSize gasLimit buffer n)
    (largest : ¬ Fits maxSize gasLimit buffer (n + 1)) (safe : ¬ OverflowsAt buffer n) :
    splitPoint maxSize gasLimit buffer 0 0 = some n := by
  obtain ⟨hmax, hlen, hgas⟩ := fits
  have stop : maxSize ≤ 0 + n ∨ buffer.length ≤ n ∨
      gasLimit.toNat < (0 : UInt64).toNat + gasOf (buffer.take (n + 1)) := by
    simp only [Fits, not_and_or, Nat.not_le] at largest
    simp only [UInt64.toNat_zero, Nat.zero_add]
    omega
  have := splitPoint_of_fits buffer 0 0 n (by omega) hlen (by simpa using hgas) stop
    (fun hlt => by simpa [OverflowsAt, hlt] using safe)
  simpa using this

theorem splitPoint_eq_none (fits : Fits maxSize gasLimit buffer n)
    (excess : OverflowsAt buffer n) : splitPoint maxSize gasLimit buffer 0 0 = none :=
  splitPoint_of_overflow buffer 0 0 n (by simpa using fits.1) excess.1 (by simpa using fits.2.2)
    (by simpa using excess.2)

/-- Without the overflow, `pop_txns` drains the largest fitting prefix, and
nothing is lost or repeated: the buffer is the drained items followed by the
ones left. -/
theorem popTxns_of_fits (fits : Fits maxSize gasLimit buffer n)
    (largest : ¬ Fits maxSize gasLimit buffer (n + 1)) (safe : ¬ OverflowsAt buffer n)
    (notAlone : ¬ (n = 0 ∧ buffer.isEmpty = false ∧ 0 < maxSize)) :
    popTxns buffer maxSize gasLimit = some ((buffer.take n).flatMap TxnItem.txns, buffer.drop n) := by
  rw [popTxns, splitPoint_eq_some fits largest safe, Option.map_some, if_neg notAlone]

/-- A first item over the gas limit on its own is drained alone. -/
theorem popTxns_of_first_too_large {item : TxnItem τ} {rest : List (TxnItem τ)}
    (positive : 0 < maxSize) (tooLarge : gasLimit < item.gasLimit) :
    popTxns (item :: rest) maxSize gasLimit = some (item.txns, rest) := by
  have tooLarge' : gasLimit.toNat < item.gasLimit.toNat := UInt64.lt_iff_toNat_lt.mp tooLarge
  have fits : Fits maxSize gasLimit (item :: rest) 0 := ⟨Nat.zero_le _, Nat.zero_le _, by simp [gasOf]⟩
  have largest : ¬ Fits maxSize gasLimit (item :: rest) 1 := fun h => by
    have := h.2.2
    simp [gasOf] at this
    omega
  have safe : ¬ OverflowsAt (item :: rest) 0 := fun h => by
    have := h.2
    simp [gasOf] at this
    have := UInt64.toNat_lt_size item.gasLimit
    omega
  simp [popTxns, splitPoint_eq_some fits largest safe, positive]

theorem popTxns_of_overflow (fits : Fits maxSize gasLimit buffer n) (excess : OverflowsAt buffer n) :
    popTxns buffer maxSize gasLimit = none := by
  simp [popTxns, splitPoint_eq_none fits excess]

/-- `pop_txns` on any buffer, at the largest count `n` of leading items that
fits: it panics when the sum at the next item overflows, drains the first `n`
items when it does not, and drains the first item alone when none fits. -/
theorem popTxns_spec (maxSize : Nat) (gasLimit : UInt64) (buffer : List (TxnItem τ)) :
    ∃ n, Fits maxSize gasLimit buffer n ∧ ¬ Fits maxSize gasLimit buffer (n + 1) ∧
      (OverflowsAt buffer n → popTxns buffer maxSize gasLimit = none) ∧
      (¬ OverflowsAt buffer n → ¬ (n = 0 ∧ buffer.isEmpty = false ∧ 0 < maxSize) →
        popTxns buffer maxSize gasLimit = some ((buffer.take n).flatMap TxnItem.txns, buffer.drop n)) ∧
      (∀ item rest, buffer = item :: rest → n = 0 → 0 < maxSize →
        popTxns buffer maxSize gasLimit = some (item.txns, rest)) := by
  obtain ⟨n, fits, largest⟩ := exists_largest_fits maxSize gasLimit buffer
  refine ⟨n, fits, largest, popTxns_of_overflow fits, popTxns_of_fits fits largest, ?_⟩
  rintro item rest rfl rfl positive
  -- one item does not fit, and with room for it only its gas can be the reason
  have tooLarge : gasLimit.toNat < item.gasLimit.toNat := by
    simp only [Fits, List.length_cons, List.take_succ_cons, List.take_zero, gasOf_cons, gasOf_nil,
      not_and, not_le] at largest
    have := largest positive (by omega)
    omega
  exact popTxns_of_first_too_large positive (UInt64.lt_iff_toNat_lt.mpr tooLarge)

/-- Two batches whose gas limits add up past `2 ^ 64 - 1`, under the largest
gas limit: the first fits and the first two do not, yet `pop_txns` drains
nothing, since the sum that tests the second batch overflows and panics. -/
theorem popTxns_panics_on_gas_overflow :
    let buffer : List (TxnItem Nat) := [⟨[1], 1⟩, ⟨[2], UInt64.ofNat (2 ^ 64 - 1)⟩]
    Fits 2 (UInt64.ofNat (2 ^ 64 - 1)) buffer 1 ∧ ¬ Fits 2 (UInt64.ofNat (2 ^ 64 - 1)) buffer 2 ∧
      popTxns buffer 2 (UInt64.ofNat (2 ^ 64 - 1)) = none := by
  refine ⟨?_, ?_, ?_⟩
  · decide
  · decide
  · rfl

end Drain

end GravitySdk.BlockBuffer
