/- Following parent links up to a stopping point.
   digest: The loop that climbs from a key along parent links, collecting the
   values it passes, until a value passes a stop test, with fuel; its
   big-step relation, which is deterministic and meets each key at most once,
   so that the number of stored keys is fuel enough. -/

import Mathlib

set_option autoImplicit false
set_option relaxedAutoImplicit false

namespace GravitySdk.Lib.Walk

variable {κ β : Type}

section Loop

variable (get : κ → Option β) (parent : β → κ) (stop : β → Bool)

/-- The loop `loop { match get(cur) { Some(b) if stop(b) => break, Some(b) =>
{ cur = parent(b); res.push(b) }, None => return None } }`: it returns the key
it stopped at and what it collected, in the order met.  It fails at a missing
key, and when it runs out of fuel. -/
def climb : Nat → κ → List β → Option (κ × List β)
  | 0, _, _ => none
  | fuel + 1, cur, acc =>
      match get cur with
      | none => none
      | some b => if stop b then some (cur, acc) else climb fuel (parent b) (acc ++ [b])

/-- The climb from `k` passes the values `bs` and stops at the key `r`. -/
inductive Climbs : κ → List β → κ → Prop
  | halt {k : κ} {b : β} : get k = some b → stop b = true → Climbs k [] k
  | up {k : κ} {b : β} {bs : List β} {r : κ} :
      get k = some b → stop b = false → Climbs (parent b) bs r → Climbs k (b :: bs) r

/-- The keys a climb meets: where it starts, then the parent of each value it
passes; the last is where it stops. -/
def keys (k : κ) (bs : List β) : List κ := k :: bs.map parent

end Loop

variable {get : κ → Option β} {parent : β → κ} {stop : β → Bool}

theorem climbs_of_climb {fuel : Nat} {k r : κ} {acc res : List β}
    (h : climb get parent stop fuel k acc = some (r, res)) :
    ∃ bs, res = acc ++ bs ∧ Climbs get parent stop k bs r ∧ bs.length < fuel := by
  induction fuel generalizing k acc with
  | zero => cases h
  | succ fuel ih =>
      simp only [climb] at h
      split at h
      · cases h
      · rename_i b hk
        split at h
        · rename_i hs
          cases h
          exact ⟨[], by simp, .halt hk hs, by simp⟩
        · rename_i hs
          obtain ⟨bs, hres, hbs, len⟩ := ih h
          refine ⟨b :: bs, by simp [hres], .up hk (by simpa using hs) hbs, ?_⟩
          simp only [List.length_cons]
          omega

theorem climb_of_climbs {k r : κ} {bs : List β} (h : Climbs get parent stop k bs r) :
    ∀ {fuel : Nat} (acc : List β), bs.length < fuel →
      climb get parent stop fuel k acc = some (r, acc ++ bs) := by
  induction h with
  | halt hk hs =>
      intro fuel acc hf
      cases fuel with
      | zero => omega
      | succ fuel => simp [climb, hk, hs]
  | @up k b bs r hk hs _ ih =>
      intro fuel acc hf
      cases fuel with
      | zero => omega
      | succ fuel =>
          have hf' : bs.length < fuel := by
            simp only [List.length_cons] at hf
            omega
          simp [climb, hk, hs, ih (acc ++ [b]) hf']

theorem Climbs.unique {k r r' : κ} {bs bs' : List β} (h : Climbs get parent stop k bs r)
    (h' : Climbs get parent stop k bs' r') : bs = bs' ∧ r = r' := by
  induction h generalizing bs' with
  | halt hk hs =>
      cases h' with
      | halt => exact ⟨rfl, rfl⟩
      | up hk' hs' _ =>
          rw [hk] at hk'
          cases hk'
          rw [hs] at hs'
          cases hs'
  | up hk hs _ ih =>
      cases h' with
      | halt hk' hs' =>
          rw [hk] at hk'
          cases hk'
          rw [hs] at hs'
          cases hs'
      | up hk' _ rest' =>
          rw [hk] at hk'
          cases hk'
          obtain ⟨rfl, rfl⟩ := ih rest'
          exact ⟨rfl, rfl⟩

theorem Climbs.of_mem_keys {k r : κ} {bs : List β} (h : Climbs get parent stop k bs r) :
    ∀ k' ∈ keys parent k bs, ∃ bs', Climbs get parent stop k' bs' r ∧ bs'.length ≤ bs.length := by
  induction h with
  | halt hk hs =>
      intro k' hk'
      simp only [keys, List.map_nil, List.mem_singleton] at hk'
      subst hk'
      exact ⟨[], .halt hk hs, Nat.le_refl _⟩
  | @up k b bs r hk hs rest ih =>
      intro k' hk'
      rcases List.mem_cons.mp hk' with rfl | hk'
      · exact ⟨b :: bs, .up hk hs rest, Nat.le_refl _⟩
      · obtain ⟨bs', h', len⟩ := ih k' (by simpa [keys] using hk')
        exact ⟨bs', h', by simp only [List.length_cons]; omega⟩

theorem Climbs.keys_nodup {k r : κ} {bs : List β} (h : Climbs get parent stop k bs r) :
    (keys parent k bs).Nodup := by
  induction h with
  | halt => simp [keys]
  | @up k b bs r hk hs rest ih =>
      refine List.nodup_cons.mpr ⟨fun hmem => ?_, ih⟩
      -- from `k` met again, the climb would pass fewer values than it does
      obtain ⟨bs', h', len⟩ := rest.of_mem_keys k hmem
      obtain ⟨heq, -⟩ := (Climbs.up hk hs rest).unique h'
      rw [← heq, List.length_cons] at len
      omega

theorem Climbs.get_isSome {k r : κ} {bs : List β} (h : Climbs get parent stop k bs r) :
    ∀ k' ∈ keys parent k bs, (get k').isSome := by
  induction h with
  | halt hk =>
      intro k' hk'
      simp only [keys, List.map_nil, List.mem_singleton] at hk'
      simp [hk', hk]
  | up hk _ _ ih =>
      intro k' hk'
      rcases List.mem_cons.mp hk' with rfl | hk'
      · simp [hk]
      · exact ih k' (by simpa [keys] using hk')

end GravitySdk.Lib.Walk
