/- Per-key consecutive runs.
   digest: A stream of items, each with a key and a sequence number, filtered
   so that an item is kept when its key has no kept item yet or its number is
   one past the key's last kept number. The kept numbers of each key form a
   run n₀, n₀ + 1, ..., and a map updated at each kept item holds the last
   kept number of every key. -/

import Mathlib
import GravitySdk.Lib.KeyMap

set_option autoImplicit false
set_option relaxedAutoImplicit false

namespace GravitySdk.Lib.KeyedRun

variable {α κ : Type} [DecidableEq κ] (key : α → κ) (seq : α → Nat)

/-- The sequence numbers kept for key `k`, in order. -/
def seqsOf (kept : List α) (k : κ) : List Nat := (kept.filter fun x => key x = k).map seq

/-- The last number kept for key `k`. -/
def lastSeq (kept : List α) (k : κ) : Option Nat := (seqsOf key seq kept k).getLast?

/-- Whether `x` continues the run of its key. -/
def continues (kept : List α) (x : α) : Bool :=
  match lastSeq key seq kept (key x) with
  | none => true
  | some n => decide (seq x = n + 1)

/-- One item offered to the filter. -/
def keep (kept : List α) (x : α) : List α := if continues key seq kept x then kept ++ [x] else kept

/-- The items offered one after another. -/
def keepAll (kept : List α) (xs : List α) : List α := xs.foldl (keep key seq) kept

/-- The items of `xs` the filter keeps after `kept`. -/
def keptAfter (kept xs : List α) : List α := (keepAll key seq kept xs).drop kept.length

/-- A run `n₀, n₀ + 1, ..., n₀ + len - 1`. -/
def IsRun (l : List Nat) : Prop := ∃ n₀, l = List.range' n₀ l.length

/-- `m` holds the last kept number of every key, and nothing for a key with
none kept. -/
def Tracks (m : KeyMap κ Nat) (kept : List α) : Prop := ∀ k, m.get k = lastSeq key seq kept k

@[simp] theorem keepAll_nil (kept : List α) : keepAll key seq kept [] = kept := rfl

@[simp] theorem keepAll_cons (kept : List α) (x : α) (xs : List α) :
    keepAll key seq kept (x :: xs) = keepAll key seq (keep key seq kept x) xs := rfl

theorem keepAll_append (kept xs ys : List α) :
    keepAll key seq kept (xs ++ ys) = keepAll key seq (keepAll key seq kept xs) ys := by
  simp only [keepAll, List.foldl_append]

theorem seqsOf_append_single (kept : List α) (x : α) (k : κ) :
    seqsOf key seq (kept ++ [x]) k = seqsOf key seq kept k ++ if key x = k then [seq x] else [] := by
  unfold seqsOf
  rw [List.filter_append]
  by_cases same : key x = k <;> simp [same]

theorem lastSeq_append_single (kept : List α) (x : α) (k : κ) :
    lastSeq key seq (kept ++ [x]) k = if key x = k then some (seq x) else lastSeq key seq kept k := by
  unfold lastSeq
  rw [seqsOf_append_single]
  split
  · exact List.getLast?_concat
  · rw [List.append_nil]

theorem prefix_keepAll (kept xs : List α) : kept <+: keepAll key seq kept xs := by
  induction xs generalizing kept with
  | nil => exact List.prefix_refl _
  | cons x xs ih =>
      rw [keepAll_cons]
      refine List.IsPrefix.trans ?_ (ih _)
      unfold keep
      split
      · exact List.prefix_append _ _
      · exact List.prefix_refl _

theorem keepAll_eq_append (kept xs : List α) : keepAll key seq kept xs = kept ++ keptAfter key seq kept xs := by
  obtain ⟨rest, grown⟩ := prefix_keepAll key seq kept xs
  rw [keptAfter, ← grown, List.drop_left]

@[simp] theorem keptAfter_nil (kept : List α) : keptAfter key seq kept [] = [] := by
  simp [keptAfter]

theorem keep_eq_append (kept : List α) (x : α) :
    keep key seq kept x = kept ++ if continues key seq kept x then [x] else [] := by
  unfold keep
  split <;> simp

theorem keptAfter_cons (kept : List α) (x : α) (xs : List α) :
    keptAfter key seq kept (x :: xs) =
      (if continues key seq kept x then [x] else []) ++ keptAfter key seq (keep key seq kept x) xs := by
  have unfolded : keepAll key seq kept (x :: xs) =
      kept ++ ((if continues key seq kept x then [x] else []) ++ keptAfter key seq (keep key seq kept x) xs) := by
    rw [keepAll_cons, keepAll_eq_append, keep_eq_append, List.append_assoc]
  rw [keptAfter, unfolded, List.drop_left]

theorem getLast?_range' (n₀ len : Nat) (nonempty : 0 < len) :
    (List.range' n₀ len).getLast? = some (n₀ + len - 1) := by
  obtain ⟨len, rfl⟩ : ∃ l, len = l + 1 := ⟨len - 1, by omega⟩
  rw [List.range'_1_concat, List.getLast?_concat]
  congr 1

theorem isRun_keep {kept : List α} (runs : ∀ k, IsRun (seqsOf key seq kept k)) (x : α) :
    ∀ k, IsRun (seqsOf key seq (keep key seq kept x) k) := by
  intro k
  unfold keep
  split
  · rename_i extends_
    rw [seqsOf_append_single]
    split
    · rename_i same
      subst same
      obtain ⟨n₀, run⟩ := runs (key x)
      unfold continues lastSeq at extends_
      cases last : (seqsOf key seq kept (key x)).getLast? with
      | none =>
          -- the first kept item of its key starts a run of one
          rw [List.getLast?_eq_none_iff.mp last]
          exact ⟨seq x, rfl⟩
      | some n =>
          rw [last] at extends_
          have follows : seq x = n + 1 := of_decide_eq_true extends_
          have nonempty : 0 < (seqsOf key seq kept (key x)).length := by
            cases seqs : seqsOf key seq kept (key x) with
            | nil => rw [seqs] at last; cases last
            | cons _ _ => simp
          have lastIs : n = n₀ + (seqsOf key seq kept (key x)).length - 1 := by
            rw [run, getLast?_range' _ _ nonempty] at last
            exact (Option.some.inj last).symm
          refine ⟨n₀, ?_⟩
          rw [List.length_append, List.length_singleton, List.range'_1_concat, ← run, follows, lastIs]
          congr 2
          omega
    · rw [List.append_nil]
      exact runs k
  · exact runs k

theorem isRun_keepAll {kept : List α} (runs : ∀ k, IsRun (seqsOf key seq kept k)) (xs : List α) :
    ∀ k, IsRun (seqsOf key seq (keepAll key seq kept xs) k) := by
  induction xs generalizing kept with
  | nil => exact runs
  | cons x xs ih => exact ih (isRun_keep key seq runs x)

theorem isRun_nil (k : κ) : IsRun (seqsOf key seq ([] : List α) k) := ⟨0, rfl⟩

variable {key seq}

theorem Tracks.insert {m : KeyMap κ Nat} {kept : List α} (tracks : Tracks key seq m kept) (x : α) :
    Tracks key seq (m.insert (key x) (seq x)) (kept ++ [x]) := by
  intro k
  rw [KeyMap.get_insert, lastSeq_append_single]
  by_cases same : k = key x
  · rw [if_pos same, if_pos same.symm]
  · rw [if_neg same, if_neg (Ne.symm same)]
    exact tracks k

theorem tracks_empty : Tracks key seq (KeyMap.empty : KeyMap κ Nat) ([] : List α) := fun _ => rfl

theorem Tracks.continues_eq {m : KeyMap κ Nat} {kept : List α} (tracks : Tracks key seq m kept) (x : α) :
    continues key seq kept x = match m.get (key x) with
      | none => true
      | some n => decide (seq x = n + 1) := by
  rw [tracks (key x)]
  rfl

end GravitySdk.Lib.KeyedRun
