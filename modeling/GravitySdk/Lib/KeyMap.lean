/- Finite maps as association lists.
   digest: A hash map seen through its lookups: insert, key-filtered retain and
   value rewriting, each with the lookup law that later proofs use instead of
   the list representation. -/

import Mathlib

set_option autoImplicit false
set_option relaxedAutoImplicit false

namespace GravitySdk.Lib

/-- A finite map stored as an association list.  Only the first entry of a key
is visible to `get`, so `insert` may simply drop the older entries. -/
structure KeyMap (κ : Type) (ν : Type) where
  entries : List (κ × ν)
  deriving Repr

namespace KeyMap

variable {κ ν : Type} [DecidableEq κ]

/-- The empty map. -/
def empty : KeyMap κ ν := ⟨[]⟩

/-- The value stored under a key (`HashMap::get`). -/
def get (m : KeyMap κ ν) (k : κ) : Option ν := m.entries.lookup k

/-- Store a value under a key, replacing any earlier one (`HashMap::insert`). -/
def insert (m : KeyMap κ ν) (k : κ) (v : ν) : KeyMap κ ν :=
  ⟨(k, v) :: m.entries.filter (fun e => e.1 != k)⟩

/-- Drop the value stored under a key (`HashMap::remove`). -/
def erase (m : KeyMap κ ν) (k : κ) : KeyMap κ ν :=
  ⟨m.entries.filter (fun e => e.1 != k)⟩

/-- Keep the entries whose key passes the test (`HashMap::retain` with a
predicate on keys only). -/
def retain (m : KeyMap κ ν) (p : κ → Bool) : KeyMap κ ν :=
  ⟨m.entries.filter (fun e => p e.1)⟩

/-- Rewrite every stored value, the key being available to the rewrite. -/
def mapWith (m : KeyMap κ ν) (f : κ → ν → ν) : KeyMap κ ν :=
  ⟨m.entries.map (fun e => (e.1, f e.1 e.2))⟩

/-- Rewrite the stored values with a function that ignores the key. -/
def mapVals {μ : Type} (m : KeyMap κ ν) (f : ν → μ) : KeyMap κ μ :=
  ⟨m.entries.map (fun e => (e.1, f e.2))⟩

/-- The number of stored entries (`HashMap::len`). -/
def size (m : KeyMap κ ν) : Nat := m.entries.length

/-- Whether the map has no entries (`HashMap::is_empty`). -/
def isEmpty (m : KeyMap κ ν) : Bool := m.entries.isEmpty

theorem lookup_cons_eq (k k' : κ) (v : ν) (l : List (κ × ν)) :
    ((k', v) :: l).lookup k = if k = k' then some v else l.lookup k := by
  by_cases h : k = k'
  · subst h
    simp
  · have hb : (k == k') = false := by simpa using h
    simp [List.lookup, hb, h]

theorem lookup_filter_key (l : List (κ × ν)) (p : κ → Bool) (k : κ) :
    (l.filter (fun e => p e.1)).lookup k = if p k then l.lookup k else none := by
  induction l with
  | nil => simp
  | cons e l ih =>
      obtain ⟨a, b⟩ := e
      rw [List.filter_cons, lookup_cons_eq]
      by_cases hka : k = a
      · subst hka
        by_cases hpk : p k = true
        · simp [hpk]
        · simp [hpk, ih]
      · split
        · rw [lookup_cons_eq, if_neg hka, ih]
        · rw [ih]

@[simp] theorem get_empty (k : κ) : (empty : KeyMap κ ν).get k = none := rfl

@[simp] theorem get_insert (m : KeyMap κ ν) (k k' : κ) (v : ν) :
    (m.insert k v).get k' = if k' = k then some v else m.get k' := by
  unfold get insert
  rw [lookup_cons_eq]
  split
  · rfl
  · rename_i hne
    rw [lookup_filter_key m.entries (fun a => a != k) k']
    simp [hne]

theorem get_insert_self (m : KeyMap κ ν) (k : κ) (v : ν) : (m.insert k v).get k = some v := by
  simp

theorem get_insert_ne (m : KeyMap κ ν) {k k' : κ} (v : ν) (h : k' ≠ k) :
    (m.insert k v).get k' = m.get k' := by
  simp [h]

@[simp] theorem get_erase (m : KeyMap κ ν) (k k' : κ) :
    (m.erase k).get k' = if k' = k then none else m.get k' := by
  unfold get erase
  rw [lookup_filter_key m.entries (fun a => a != k) k']
  by_cases same : k' = k <;> simp [same]

@[simp] theorem get_retain (m : KeyMap κ ν) (p : κ → Bool) (k : κ) :
    (m.retain p).get k = if p k then m.get k else none :=
  lookup_filter_key m.entries p k

@[simp] theorem get_mapWith (m : KeyMap κ ν) (f : κ → ν → ν) (k : κ) :
    (m.mapWith f).get k = (m.get k).map (f k) := by
  unfold get mapWith
  induction m.entries with
  | nil => rfl
  | cons e l ih =>
      obtain ⟨a, b⟩ := e
      rw [List.map_cons, lookup_cons_eq, lookup_cons_eq, ih]
      by_cases hka : k = a
      · subst hka
        simp
      · simp [hka]

@[simp] theorem get_mapVals {μ : Type} (m : KeyMap κ ν) (f : ν → μ) (k : κ) :
    (m.mapVals f).get k = (m.get k).map f := by
  unfold get mapVals
  induction m.entries with
  | nil => rfl
  | cons e l ih =>
      obtain ⟨a, b⟩ := e
      rw [List.map_cons, lookup_cons_eq, lookup_cons_eq, ih]
      by_cases hka : k = a
      · subst hka
        simp
      · simp [hka]

theorem mem_entries_of_get {m : KeyMap κ ν} {k : κ} {v : ν} (h : m.get k = some v) :
    (k, v) ∈ m.entries := by
  obtain ⟨l⟩ := m
  change l.lookup k = some v at h
  change (k, v) ∈ l
  induction l with
  | nil => cases h
  | cons e l ih =>
      obtain ⟨a, b⟩ := e
      rw [lookup_cons_eq] at h
      split at h
      · rename_i hka
        cases h
        subst hka
        exact List.mem_cons_self
      · exact List.mem_cons_of_mem _ (ih h)

theorem length_le_size {m : KeyMap κ ν} {ks : List κ} (nodup : ks.Nodup)
    (stored : ∀ k ∈ ks, (m.get k).isSome) : ks.length ≤ m.size := by
  have sub : ks ⊆ m.entries.map Prod.fst := by
    intro k hk
    obtain ⟨v, hv⟩ := Option.isSome_iff_exists.mp (stored k hk)
    exact List.mem_map.mpr ⟨(k, v), mem_entries_of_get hv, rfl⟩
  simpa [size] using (List.subperm_of_subset nodup sub).length_le

end KeyMap

end GravitySdk.Lib
