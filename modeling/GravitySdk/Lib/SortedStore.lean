/- An ordered key-value store.
   digest: A column family of a key-sorted store such as RocksDB: a finite map
   whose entries stay strictly increasing in key, read by scans between an
   inclusive lower and an exclusive upper bound and by its last entry, and
   written by batches of deletions that take effect at once.  Each operation
   comes with the lookup law later proofs use in place of the list. -/

import Mathlib
import GravitySdk.Lib.KeyMap

set_option autoImplicit false
set_option relaxedAutoImplicit false

namespace GravitySdk.Lib

/-- A column family: a map whose entries are strictly increasing in key, the
order in which an iterator meets them. -/
structure SortedStore (κ ν : Type) [LinearOrder κ] where
  map : KeyMap κ ν
  sorted : map.entries.Pairwise (fun a b => a.1 < b.1)

namespace SortedStore

variable {κ ν : Type} [LinearOrder κ]

/-- Insertion into a key-sorted list, replacing the entry of an equal key. -/
def insertSorted (k : κ) (v : ν) : List (κ × ν) → List (κ × ν)
  | [] => [(k, v)]
  | e :: rest =>
      if k < e.1 then (k, v) :: e :: rest
      else if k = e.1 then (k, v) :: rest
      else e :: insertSorted k v rest

theorem mem_insertSorted {k : κ} {v : ν} {l : List (κ × ν)} {e : κ × ν}
    (h : e ∈ insertSorted k v l) : e = (k, v) ∨ e ∈ l := by
  induction l with
  | nil => simpa [insertSorted] using h
  | cons x rest ih =>
      simp only [insertSorted] at h
      by_cases hlt : k < x.1
      · rw [if_pos hlt] at h
        simpa using h
      · rw [if_neg hlt] at h
        by_cases heq : k = x.1
        · rw [if_pos heq] at h
          rcases List.mem_cons.mp h with rfl | h
          · exact Or.inl rfl
          · exact Or.inr (List.mem_cons_of_mem _ h)
        · rw [if_neg heq] at h
          rcases List.mem_cons.mp h with rfl | h
          · exact Or.inr List.mem_cons_self
          · rcases ih h with rfl | h
            · exact Or.inl rfl
            · exact Or.inr (List.mem_cons_of_mem _ h)

theorem insertSorted_sorted (k : κ) (v : ν) {l : List (κ × ν)}
    (sorted : l.Pairwise fun a b => a.1 < b.1) : (insertSorted k v l).Pairwise fun a b => a.1 < b.1 := by
  induction l with
  | nil => simp [insertSorted]
  | cons x rest ih =>
      have below : ∀ y ∈ rest, x.1 < y.1 := fun y hy => List.rel_of_pairwise_cons sorted hy
      simp only [insertSorted]
      by_cases hlt : k < x.1
      · rw [if_pos hlt]
        refine List.Pairwise.cons (fun y hy => ?_) sorted
        rcases List.mem_cons.mp hy with rfl | hy
        · exact hlt
        · exact lt_trans hlt (below y hy)
      · rw [if_neg hlt]
        by_cases heq : k = x.1
        · rw [if_pos heq]
          exact List.Pairwise.cons (fun y hy => heq ▸ below y hy) sorted.of_cons
        · rw [if_neg heq]
          have hgt : x.1 < k := lt_of_le_of_ne (not_lt.mp hlt) (Ne.symm heq)
          refine List.Pairwise.cons (fun y hy => ?_) (ih sorted.of_cons)
          rcases mem_insertSorted hy with rfl | hy
          · exact hgt
          · exact below y hy

theorem lookup_insertSorted (k : κ) (v : ν) (l : List (κ × ν)) (k' : κ) :
    (insertSorted k v l).lookup k' = if k' = k then some v else l.lookup k' := by
  induction l with
  | nil => simp [insertSorted, KeyMap.lookup_cons_eq]
  | cons x rest ih =>
      obtain ⟨a, b⟩ := x
      simp only [insertSorted]
      by_cases hlt : k < a
      · rw [if_pos hlt, KeyMap.lookup_cons_eq]
      · rw [if_neg hlt]
        by_cases heq : k = a
        · subst heq
          rw [if_pos rfl, KeyMap.lookup_cons_eq, KeyMap.lookup_cons_eq]
          by_cases hk : k' = k <;> simp [hk]
        · rw [if_neg heq, KeyMap.lookup_cons_eq, KeyMap.lookup_cons_eq, ih]
          by_cases hk : k' = k
          · subst hk
            simp [heq]
          · simp [hk]

theorem sum_insertSorted (k : κ) (v : ν) (f : κ × ν → Nat) {l : List (κ × ν)}
    (sorted : l.Pairwise fun a b => a.1 < b.1) :
    ((insertSorted k v l).map f).sum + ((l.lookup k).map fun old => f (k, old)).getD 0 =
      (l.map f).sum + f (k, v) := by
  induction l with
  | nil => simp [insertSorted]
  | cons x rest ih =>
      obtain ⟨a, b⟩ := x
      have above : ∀ y ∈ rest, a < y.1 := fun y hy => List.rel_of_pairwise_cons sorted hy
      simp only [insertSorted]
      by_cases hlt : k < a
      · -- every key of the list is above the inserted one
        have absent : ((a, b) :: rest).lookup k = none := by
          rw [List.lookup_eq_none_iff]
          intro p hp
          have below : k < p.1 := by
            rcases List.mem_cons.mp hp with rfl | hp
            · exact hlt
            · exact lt_trans hlt (above p hp)
          simpa using ne_of_lt below
        rw [if_pos hlt, absent]
        simp only [List.map_cons, List.sum_cons, Option.map_none, Option.getD_none]
        omega
      · rw [if_neg hlt]
        by_cases heq : k = a
        · subst heq
          simp only [if_true, KeyMap.lookup_cons_eq, List.map_cons, List.sum_cons, Option.map_some,
            Option.getD_some]
          omega
        · rw [if_neg heq, KeyMap.lookup_cons_eq, if_neg heq]
          have step := ih sorted.of_cons
          simp only [List.map_cons, List.sum_cons]
          omega

/-- The entries in increasing key order (`iter` after `seek_to_first`). -/
def entries (s : SortedStore κ ν) : List (κ × ν) := s.map.entries

/-- The value stored under a key (`DB::get`). -/
def get (s : SortedStore κ ν) (k : κ) : Option ν := s.map.get k

/-- The empty column family. -/
def empty : SortedStore κ ν := ⟨⟨[]⟩, List.Pairwise.nil⟩

/-- Store a value under a key, in key order (`BTreeMap::insert`). -/
def insert (s : SortedStore κ ν) (k : κ) (v : ν) : SortedStore κ ν :=
  ⟨⟨insertSorted k v s.entries⟩, insertSorted_sorted k v s.sorted⟩

/-- `entry(k).or_insert(v)`: a key already present keeps its value. -/
def orInsert (s : SortedStore κ ν) (k : κ) (v : ν) : SortedStore κ ν :=
  if (s.map.get k).isSome then s else s.insert k v

/-- The entries whose keys lie in `[lo, hi)`, in increasing order: an iterator
with `iterate_lower_bound` and `iterate_upper_bound` set. -/
def range (s : SortedStore κ ν) (lo hi : κ) : List (κ × ν) :=
  s.entries.filter fun e => lo ≤ e.1 ∧ e.1 < hi

/-- The entry of the largest key: `seek_to_last` and one step of a reverse
iterator. -/
def last? (s : SortedStore κ ν) : Option (κ × ν) := s.entries.getLast?

/-- Keep the entries whose key passes a test. -/
def retain (s : SortedStore κ ν) (p : κ → Bool) : SortedStore κ ν :=
  ⟨s.map.retain p, s.sorted.filter _⟩

/-- A committed batch of deletions of the listed keys. -/
def deleteAll (s : SortedStore κ ν) (ks : List κ) : SortedStore κ ν :=
  s.retain fun k => decide (k ∉ ks)

/-- Insert the entries of a list one after the other. -/
def insertAll (s : SortedStore κ ν) (l : List (κ × ν)) : SortedStore κ ν :=
  l.foldl (fun m e => m.insert e.1 e.2) s

/-- Remove the entry of a key (`HashMap::remove`). -/
def erase (s : SortedStore κ ν) (k : κ) : SortedStore κ ν :=
  s.retain fun k' => k' != k

/-- Keep the entries that pass a test on their key and value (`retain` with a
closure that reads the value). -/
def retainEntries (s : SortedStore κ ν) (p : κ → ν → Bool) : SortedStore κ ν :=
  ⟨⟨s.entries.filter fun e => p e.1 e.2⟩, s.sorted.filter _⟩

/-- The entry of the smallest key (`keys().next()`, `first_key_value`). -/
def first? (s : SortedStore κ ν) : Option (κ × ν) := s.entries.head?

/-- Remove the entry of the smallest key (`BTreeMap::pop_first`). -/
def popFirst (s : SortedStore κ ν) : SortedStore κ ν :=
  ⟨⟨s.entries.tail⟩, s.sorted.sublist (List.tail_sublist _)⟩

/-- `BTreeMap::split_off(&k)`: the entries below `k` stay, those from `k` on
are split off; the pair is (what stays, what is split off). -/
def splitOff (s : SortedStore κ ν) (k : κ) : SortedStore κ ν × SortedStore κ ν :=
  (s.retain fun k' => decide (k' < k), s.retain fun k' => decide (k ≤ k'))

@[simp] theorem get_empty (k : κ) : (empty : SortedStore κ ν).get k = none := rfl

@[simp] theorem get_insert (s : SortedStore κ ν) (k k' : κ) (v : ν) :
    (s.insert k v).get k' = if k' = k then some v else s.get k' :=
  lookup_insertSorted k v s.entries k'

@[simp] theorem get_orInsert (s : SortedStore κ ν) (k k' : κ) (v : ν) :
    (s.orInsert k v).get k' = if k' = k then some ((s.get k).getD v) else s.get k' := by
  unfold orInsert
  split
  · rename_i present
    obtain ⟨w, hw⟩ := Option.isSome_iff_exists.mp present
    change s.get k = some w at hw
    by_cases hk : k' = k
    · subst hk
      simp [hw]
    · simp [hk]
  · rename_i absent
    have none_here : s.get k = none := by simpa [get] using absent
    simp [none_here]

@[simp] theorem get_retain (s : SortedStore κ ν) (p : κ → Bool) (k : κ) :
    (s.retain p).get k = if p k then s.get k else none :=
  KeyMap.get_retain s.map p k

@[simp] theorem get_deleteAll (s : SortedStore κ ν) (ks : List κ) (k : κ) :
    (s.deleteAll ks).get k = if k ∈ ks then none else s.get k := by
  by_cases hk : k ∈ ks <;> simp [deleteAll, hk]

@[simp] theorem get_erase (s : SortedStore κ ν) (k k' : κ) :
    (s.erase k).get k' = if k' = k then none else s.get k' := by
  by_cases hk : k' = k <;> simp [erase, hk]

@[simp] theorem entries_retain (s : SortedStore κ ν) (p : κ → Bool) :
    (s.retain p).entries = s.entries.filter fun e => p e.1 := rfl

theorem mem_range {s : SortedStore κ ν} {lo hi : κ} {e : κ × ν} :
    e ∈ s.range lo hi ↔ e ∈ s.entries ∧ lo ≤ e.1 ∧ e.1 < hi := by
  simp [range]

theorem get_eq_some_iff {s : SortedStore κ ν} {k : κ} {v : ν} :
    s.get k = some v ↔ (k, v) ∈ s.entries := by
  refine ⟨KeyMap.mem_entries_of_get, fun hmem => ?_⟩
  obtain ⟨⟨l⟩, sorted⟩ := s
  change (k, v) ∈ l at hmem
  change l.lookup k = some v
  induction l with
  | nil => cases hmem
  | cons e l ih =>
      obtain ⟨a, b⟩ := e
      rw [KeyMap.lookup_cons_eq]
      rcases List.mem_cons.mp hmem with heq | hmem
      · cases heq
        simp
      · -- the head's key is below every later key, so it is not `k`
        have below : a < k := List.rel_of_pairwise_cons sorted hmem
        have hka : k ≠ a := fun h => lt_irrefl a (h ▸ below)
        rw [if_neg hka]
        exact ih sorted.of_cons hmem

theorem mem_entries_of_get {s : SortedStore κ ν} {k : κ} {v : ν} (h : s.get k = some v) :
    (k, v) ∈ s.entries :=
  get_eq_some_iff.mp h

@[simp] theorem get_retainEntries (s : SortedStore κ ν) (p : κ → ν → Bool) (k : κ) :
    (s.retainEntries p).get k = (s.get k).filter (p k) := by
  have kept : ∀ v, (s.retainEntries p).get k = some v ↔ s.get k = some v ∧ p k v = true := by
    intro v
    rw [get_eq_some_iff, get_eq_some_iff]
    exact List.mem_filter
  cases h : (s.retainEntries p).get k with
  | none =>
      cases found : s.get k with
      | none => rfl
      | some v =>
          by_cases pass : p k v = true
          · have stays := (kept v).mpr ⟨found, pass⟩
            rw [h] at stays
            cases stays
          · simp [Option.filter_some, pass]
  | some v =>
      obtain ⟨found, pass⟩ := (kept v).mp h
      simp [found, Option.filter_some, pass]

theorem entry_eq_of_key_eq {s : SortedStore κ ν} {e e' : κ × ν} (he : e ∈ s.entries)
    (he' : e' ∈ s.entries) (key : e.1 = e'.1) : e = e' := by
  have found : s.get e.1 = some e.2 := get_eq_some_iff.mpr he
  have found' : s.get e.1 = some e'.2 := key ▸ get_eq_some_iff.mpr he'
  rw [found] at found'
  exact Prod.ext key (Option.some.inj found')

theorem mem_keys_iff {s : SortedStore κ ν} {k : κ} : k ∈ s.entries.map Prod.fst ↔ (s.get k).isSome := by
  constructor
  · intro hk
    obtain ⟨⟨k', v⟩, hmem, rfl⟩ := List.mem_map.mp hk
    simp [get_eq_some_iff.mpr hmem]
  · intro hk
    obtain ⟨v, hv⟩ := Option.isSome_iff_exists.mp hk
    exact List.mem_map.mpr ⟨(k, v), mem_entries_of_get hv, rfl⟩

theorem keys_sorted (s : SortedStore κ ν) : (s.entries.map Prod.fst).Pairwise (· < ·) :=
  List.pairwise_map.mpr s.sorted

theorem keys_nodup (s : SortedStore κ ν) : (s.entries.map Prod.fst).Nodup :=
  (keys_sorted s).imp ne_of_lt

theorem sum_insert (s : SortedStore κ ν) (k : κ) (v : ν) (f : κ × ν → Nat) :
    ((s.insert k v).entries.map f).sum + ((s.get k).map fun old => f (k, old)).getD 0 =
      (s.entries.map f).sum + f (k, v) :=
  sum_insertSorted k v f s.sorted

theorem sum_filter_key {k : κ} (f : κ × ν → Nat) {l : List (κ × ν)} (nodup : (l.map Prod.fst).Nodup) :
    ((l.filter fun e => e.1 != k).map f).sum + ((l.lookup k).map fun old => f (k, old)).getD 0 =
      (l.map f).sum := by
  induction l with
  | nil => simp
  | cons x rest ih =>
      obtain ⟨a, b⟩ := x
      rw [List.map_cons, List.nodup_cons] at nodup
      by_cases heq : a = k
      · -- the only entry of the key is the head
        subst heq
        have kept : rest.filter (fun e => e.1 != a) = rest := by
          refine List.filter_eq_self.mpr fun e he => ?_
          have other : e.1 ≠ a := fun same => nodup.1 (List.mem_map.mpr ⟨e, he, same⟩)
          simpa using other
        simp [kept]
        omega
      · have step := ih nodup.2
        simp only [List.filter_cons, bne_iff_ne, ne_eq, heq, not_false_eq_true, if_true, List.map_cons,
          List.sum_cons, KeyMap.lookup_cons_eq, Ne.symm heq, if_false]
        omega

theorem sum_erase (s : SortedStore κ ν) (k : κ) (f : κ × ν → Nat) :
    ((s.erase k).entries.map f).sum + ((s.get k).map fun old => f (k, old)).getD 0 =
      (s.entries.map f).sum :=
  sum_filter_key f (keys_nodup s)

theorem get_insertAll {s : SortedStore κ ν} {l : List (κ × ν)} (nodup : (l.map Prod.fst).Nodup)
    (k : κ) (v : ν) :
    (s.insertAll l).get k = some v ↔ (k, v) ∈ l ∨ (k ∉ l.map Prod.fst ∧ s.get k = some v) := by
  induction l generalizing s with
  | nil => simp [insertAll]
  | cons e rest ih =>
      obtain ⟨k₁, v₁⟩ := e
      rw [List.map_cons, List.nodup_cons] at nodup
      change ((s.insert k₁ v₁).insertAll rest).get k = some v ↔ _
      rw [ih nodup.2, get_insert]
      by_cases hk : k = k₁
      · -- the key inserted first is not inserted again
        subst hk
        have notLater : (k, v) ∉ rest := fun h => nodup.1 (List.mem_map.mpr ⟨_, h, rfl⟩)
        simp [notLater, nodup.1, eq_comm]
      · simp [hk]

theorem get_deleteAll_range (s : SortedStore κ ν) (lo hi k : κ) :
    (s.deleteAll ((s.range lo hi).map Prod.fst)).get k = if lo ≤ k ∧ k < hi then none else s.get k := by
  rw [get_deleteAll]
  by_cases hin : lo ≤ k ∧ k < hi
  · rw [if_pos hin]
    cases hk : s.get k with
    | none => simp
    | some v =>
        have found : k ∈ (s.range lo hi).map Prod.fst :=
          List.mem_map.mpr ⟨(k, v), mem_range.mpr ⟨mem_entries_of_get hk, hin⟩, rfl⟩
        simp [found]
  · rw [if_neg hin]
    have missed : k ∉ (s.range lo hi).map Prod.fst := by
      intro hmem
      obtain ⟨⟨k', v⟩, hr, rfl⟩ := List.mem_map.mp hmem
      exact hin (mem_range.mp hr).2
    simp [missed]

theorem le_of_last? {s : SortedStore κ ν} {k : κ} {v : ν} (h : s.last? = some (k, v)) :
    ∀ e ∈ s.entries, e.1 ≤ k := by
  obtain ⟨ys, hys⟩ := List.getLast?_eq_some_iff.mp h
  have sorted := s.sorted
  change s.entries.Pairwise _ at sorted
  rw [hys, List.pairwise_append] at sorted
  intro e he
  rw [hys] at he
  rcases List.mem_append.mp he with he | he
  · exact le_of_lt (sorted.2.2 e he (k, v) (List.mem_singleton_self _))
  · rw [List.mem_singleton.mp he]

theorem mem_of_last? {s : SortedStore κ ν} {e : κ × ν} (h : s.last? = some e) : e ∈ s.entries :=
  List.mem_of_getLast? h

theorem last?_eq_none_iff {s : SortedStore κ ν} : s.last? = none ↔ s.entries = [] :=
  List.getLast?_eq_none_iff

theorem first?_eq_none_iff {s : SortedStore κ ν} : s.first? = none ↔ s.entries = [] :=
  List.head?_eq_none_iff

theorem length_popFirst (s : SortedStore κ ν) : s.popFirst.entries.length = s.entries.length - 1 :=
  List.length_tail

theorem length_insert (s : SortedStore κ ν) (k : κ) (v : ν) :
    (s.insert k v).entries.length + (if (s.get k).isSome then 1 else 0) = s.entries.length + 1 := by
  have counted := sum_insert s k v fun _ => 1
  cases hk : s.get k <;> simpa [hk] using counted

theorem length_insert_le (s : SortedStore κ ν) (k : κ) (v : ν) :
    (s.insert k v).entries.length ≤ s.entries.length + 1 := by
  have grown := length_insert s k v
  split at grown <;> omega

theorem length_retain_le (s : SortedStore κ ν) (p : κ → Bool) :
    (s.retain p).entries.length ≤ s.entries.length :=
  List.length_filter_le _ _

@[simp] theorem get_splitOff_fst (s : SortedStore κ ν) (k k' : κ) :
    (s.splitOff k).1.get k' = if k' < k then s.get k' else none := by
  simp [splitOff]

@[simp] theorem get_splitOff_snd (s : SortedStore κ ν) (k k' : κ) :
    (s.splitOff k).2.get k' = if k ≤ k' then s.get k' else none := by
  simp [splitOff]

theorem length_filter_insert (s : SortedStore κ ν) (k : κ) (v : ν) (p : κ → Bool) :
    ((s.insert k v).entries.filter fun e => p e.1).length + (if (s.get k).isSome ∧ p k then 1 else 0) =
      (s.entries.filter fun e => p e.1).length + (if p k then 1 else 0) := by
  have counted := sum_insert s k v fun e => if p e.1 then 1 else 0
  have asSum : ∀ l : List (κ × ν), (l.filter fun e => p e.1).length = (l.map fun e => if p e.1 then 1 else 0).sum := by
    intro l
    induction l with
    | nil => rfl
    | cons e l ih => by_cases pe : p e.1 <;> simp [pe, ih, Nat.add_comm]
  rw [asSum, asSum]
  cases hk : s.get k <;> by_cases pk : p k <;> simp_all

theorem last?_spec {s : SortedStore κ ν} {k : κ} {v : ν} (h : s.last? = some (k, v)) :
    s.get k = some v ∧ ∀ k', (s.get k').isSome → k' ≤ k := by
  refine ⟨get_eq_some_iff.mpr (mem_of_last? h), fun k' present => ?_⟩
  obtain ⟨v', found⟩ := Option.isSome_iff_exists.mp present
  exact le_of_last? h (k', v') (mem_entries_of_get found)

theorem last?_eq_none_iff_get {s : SortedStore κ ν} : s.last? = none ↔ ∀ k, s.get k = none := by
  rw [last?_eq_none_iff]
  constructor
  · intro empty k
    cases found : s.get k with
    | none => rfl
    | some v =>
        have listed := mem_entries_of_get found
        rw [empty] at listed
        cases listed
  · intro absent
    cases listed : s.entries with
    | nil => rfl
    | cons e rest =>
        have found : s.get e.1 = some e.2 := get_eq_some_iff.mpr (by rw [listed]; exact List.mem_cons_self)
        rw [absent] at found
        cases found

end SortedStore

end GravitySdk.Lib
