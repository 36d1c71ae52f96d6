/- Linked lists threaded through finite maps.
   digest: A list of keys threaded through a map by next links, from a first
   key to the end: its unfolding, that it is unique and repeats no key, that it
   survives updates that keep the links of its keys, how it grows at its last
   key and shrinks at its first, what the link of each key is, and that the
   walk that finds the first key whose value passes a test is the search of
   the thread's keys. -/

import Mathlib

set_option autoImplicit false
set_option relaxedAutoImplicit false

namespace GravitySdk.Lib.Chain

variable {κ ν : Type}

/-- `Threads get next first keys`: following `next` through the map `get`
from `first` visits exactly `keys`, each with a value, and then stops. -/
def Threads (get : κ → Option ν) (next : ν → Option κ) : Option κ → List κ → Prop
  | none, [] => True
  | some k, k' :: rest => k = k' ∧ ∃ v, get k = some v ∧ Threads get next (next v) rest
  | _, _ => False

/-- The walk of a search along the links: from a key, the first whose value
passes `test`; `none` on a missing key, on a test that fails (`test` gives
`none`), and when the fuel runs out. -/
def findFrom (get : κ → Option ν) (next : ν → Option κ) (test : ν → Option Bool) :
    Nat → Option κ → Option (Option κ)
  | _, none => some none
  | 0, some _ => none
  | fuel + 1, some k => do
      let v ← get k
      let hit ← test v
      if hit then pure (some k) else findFrom get next test fuel (next v)

/-- The same search over a list of keys. -/
def findIn (get : κ → Option ν) (test : ν → Option Bool) : List κ → Option (Option κ)
  | [] => some none
  | k :: rest => do
      let v ← get k
      let hit ← test v
      if hit then pure (some k) else findIn get test rest

section Threads

variable {get get' : κ → Option ν} {next : ν → Option κ}

@[simp] theorem threads_nil_iff {first : Option κ} : Threads get next first [] ↔ first = none := by
  cases first with
  | none => exact ⟨fun _ => rfl, fun _ => trivial⟩
  | some k => exact ⟨False.elim, fun h => nomatch h⟩

@[simp] theorem threads_cons_iff {first : Option κ} {k : κ} {rest : List κ} :
    Threads get next first (k :: rest) ↔
      first = some k ∧ ∃ v, get k = some v ∧ Threads get next (next v) rest := by
  cases first with
  | none => exact ⟨False.elim, fun h => nomatch h.1⟩
  | some k' =>
      constructor
      · rintro ⟨rfl, rest⟩
        exact ⟨rfl, rest⟩
      · rintro ⟨same, rest⟩
        obtain rfl := Option.some.inj same
        exact ⟨rfl, rest⟩

@[simp] theorem threads_none_iff {keys : List κ} : Threads get next none keys ↔ keys = [] := by
  cases keys with
  | nil => exact ⟨fun _ => rfl, fun _ => trivial⟩
  | cons k rest => exact ⟨False.elim, fun h => nomatch h⟩

theorem Threads.head?_eq {first : Option κ} {keys : List κ} (h : Threads get next first keys) :
    keys.head? = first := by
  cases keys with
  | nil => exact (threads_nil_iff.mp h).symm
  | cons k rest => exact (threads_cons_iff.mp h).1.symm

theorem Threads.from_mem {first : Option κ} {pre post : List κ} {k : κ}
    (h : Threads get next first (pre ++ k :: post)) : Threads get next (some k) (k :: post) := by
  induction pre generalizing first with
  | nil =>
      obtain ⟨rfl, rest⟩ := threads_cons_iff.mp h
      exact threads_cons_iff.mpr ⟨rfl, rest⟩
  | cons k' pre ih =>
      obtain ⟨-, v, -, rest⟩ := threads_cons_iff.mp h
      exact ih rest

theorem Threads.unique {first : Option κ} {keys keys' : List κ} (h : Threads get next first keys)
    (h' : Threads get next first keys') : keys = keys' := by
  induction keys generalizing first keys' with
  | nil =>
      rw [threads_nil_iff] at h
      subst h
      cases keys' with
      | nil => rfl
      | cons k rest => simp at h'
  | cons k rest ih =>
      obtain ⟨rfl, v, hv, hrest⟩ := threads_cons_iff.mp h
      cases keys' with
      | nil => simp at h'
      | cons k' rest' =>
          obtain ⟨same, v', hv', hrest'⟩ := threads_cons_iff.mp h'
          cases Option.some.inj same
          rw [hv, Option.some.injEq] at hv'
          subst hv'
          rw [ih hrest hrest']

theorem Threads.nodup {first : Option κ} {keys : List κ} (h : Threads get next first keys) : keys.Nodup := by
  induction keys generalizing first with
  | nil => exact List.nodup_nil
  | cons k rest ih =>
      obtain ⟨rfl, v, hv, hrest⟩ := threads_cons_iff.mp h
      refine List.nodup_cons.mpr ⟨fun mem => ?_, ih hrest⟩
      obtain ⟨pre, post, split⟩ := List.append_of_mem mem
      have whole : Threads get next (some k) (k :: rest) := threads_cons_iff.mpr ⟨rfl, v, hv, hrest⟩
      have later : Threads get next (some k) (k :: post) := by
        rw [split] at hrest
        have whole' : Threads get next (some k) ((k :: pre) ++ k :: post) :=
          threads_cons_iff.mpr ⟨rfl, v, hv, hrest⟩
        exact whole'.from_mem
      have same := List.cons.inj (whole.unique later)
      have lengths := congrArg List.length (same.2.symm.trans split)
      simp at lengths
      omega

theorem Threads.congr {first : Option κ} {keys : List κ} (h : Threads get next first keys)
    (keep : ∀ k ∈ keys, ∀ v, get k = some v → ∃ v', get' k = some v' ∧ next v' = next v) :
    Threads get' next first keys := by
  induction keys generalizing first with
  | nil => exact threads_nil_iff.mpr (threads_nil_iff.mp h)
  | cons k rest ih =>
      obtain ⟨rfl, v, hv, hrest⟩ := threads_cons_iff.mp h
      obtain ⟨v', hv', sameNext⟩ := keep k List.mem_cons_self v hv
      refine threads_cons_iff.mpr ⟨rfl, v', hv', ?_⟩
      rw [sameNext]
      exact ih hrest fun k' mem => keep k' (List.mem_cons_of_mem _ mem)

theorem Threads.concat {first : Option κ} {pre : List κ} {last new : κ}
    (h : Threads get next first (pre ++ [last]))
    (keep : ∀ k ∈ pre, ∀ v, get k = some v → ∃ v', get' k = some v' ∧ next v' = next v)
    (relink : ∃ v', get' last = some v' ∧ next v' = some new)
    (ends : ∃ w, get' new = some w ∧ next w = none) :
    Threads get' next first (pre ++ [last, new]) := by
  obtain ⟨w, hw, wEnds⟩ := ends
  induction pre generalizing first with
  | nil =>
      obtain ⟨rfl, -, -, -⟩ := threads_cons_iff.mp h
      obtain ⟨v', hv', linked⟩ := relink
      refine threads_cons_iff.mpr ⟨rfl, v', hv', ?_⟩
      rw [linked]
      exact threads_cons_iff.mpr ⟨rfl, w, hw, threads_nil_iff.mpr wEnds⟩
  | cons k pre ih =>
      obtain ⟨rfl, v, hv, hrest⟩ := threads_cons_iff.mp h
      obtain ⟨v', hv', sameNext⟩ := keep k List.mem_cons_self v hv
      refine threads_cons_iff.mpr ⟨rfl, v', hv', ?_⟩
      rw [sameNext]
      exact ih hrest fun k' mem => keep k' (List.mem_cons_of_mem _ mem)

theorem Threads.next_eq {first : Option κ} {pre post : List κ} {k : κ}
    (h : Threads get next first (pre ++ k :: post)) {v : ν} (hv : get k = some v) :
    next v = post.head? := by
  obtain ⟨-, v', hv', rest⟩ := threads_cons_iff.mp h.from_mem
  rw [hv, Option.some.injEq] at hv'
  subst hv'
  exact rest.head?_eq.symm

theorem Threads.findFrom_eq {first : Option κ} {keys : List κ} (h : Threads get next first keys)
    (test : ν → Option Bool) {fuel : Nat} (enough : keys.length < fuel) :
    findFrom get next test fuel first = findIn get test keys := by
  induction keys generalizing first fuel with
  | nil =>
      rw [threads_nil_iff.mp h]
      cases fuel <;> rfl
  | cons k rest ih =>
      obtain ⟨rfl, v, hv, hrest⟩ := threads_cons_iff.mp h
      obtain ⟨fuel, rfl⟩ : ∃ f, fuel = f + 1 := ⟨fuel - 1, by simp at enough; omega⟩
      have later := ih hrest (by simpa using enough)
      simp only [findFrom, findIn, hv, Option.bind_eq_bind, Option.bind_some, later]

end Threads

theorem le_label_iff {label : κ → Nat} {pre post : List κ} {c k : κ}
    (increasing : (pre ++ c :: post).Pairwise fun a b => label a < label b) (mem : k ∈ pre ++ c :: post) :
    label c ≤ label k ↔ k = c ∨ k ∈ post := by
  rw [List.pairwise_append, List.pairwise_cons] at increasing
  obtain ⟨-, ⟨afterC, -⟩, beforeC⟩ := increasing
  constructor
  · intro atLeast
    rcases List.mem_append.mp mem with inPre | inRest
    · have := beforeC k inPre c List.mem_cons_self
      omega
    · exact List.mem_cons.mp inRest
  · rintro (rfl | inPost)
    · exact le_refl _
    · exact (afterC k inPost).le

end GravitySdk.Lib.Chain
