/- Round-robin over shuffled iterators.
   digest: While iterators remain, a loop puts them in any order and lets each
   yield its next item to a visitor, which says whether the iterator stays; a
   spent iterator goes. Whatever the orders, each iterator yields a prefix of
   its items in its own order, cut short only by a visit that let it go, and
   one round for each item and each iterator is fuel enough. -/

import Mathlib

set_option autoImplicit false
set_option relaxedAutoImplicit false

namespace GravitySdk.Lib.RoundRobin

variable {ι α σ : Type}

/-- An order for every round: any permutation of the iterators left. -/
structure Shuffles (β : Type) where
  order : Nat → List β → List β
  perm : ∀ round l, (order round l).Perm l

/-- The order that leaves the iterators as they are. -/
def Shuffles.keep {β : Type} : Shuffles β := ⟨fun _ l => l, fun _ l => List.Perm.refl l⟩

section Loop

variable (visit : α → σ → Option (Bool × σ))

/-- One pass of `retain_mut` over tagged iterators: each in turn yields its
next item to `visit`, and goes on after `kept` with the rest of its items when
`visit` keeps it; a spent iterator is dropped. -/
def retainPass : List (ι × List α) → List (ι × List α) → σ → Option (List (ι × List α) × σ)
  | kept, [], s => some (kept, s)
  | kept, (_, []) :: iters, s => retainPass kept iters s
  | kept, (i, x :: rest) :: iters, s =>
      match visit x s with
      | none => none
      | some (keep, s') => retainPass (if keep then kept ++ [(i, rest)] else kept) iters s'

/-- `while !iters.is_empty() { iters.shuffle(..); iters.retain_mut(..) }`,
with fuel for the rounds. -/
def rounds (shuffles : Shuffles (ι × List α)) :
    Nat → Nat → List (ι × List α) → σ → Option (List (ι × List α) × σ)
  | _, 0, iters, s => some (iters, s)
  | round, fuel + 1, iters, s =>
      if iters.isEmpty then some ([], s)
      else
        match retainPass visit [] (shuffles.order round iters) s with
        | none => none
        | some (iters', s') => rounds shuffles (round + 1) fuel iters' s'

end Loop

/-- One round for each item and each iterator. -/
def budget (iters : List (ι × List α)) : Nat := (iters.map fun it => it.2.length + 1).sum

@[simp] theorem budget_nil : budget ([] : List (ι × List α)) = 0 := rfl

theorem budget_append (l l' : List (ι × List α)) : budget (l ++ l') = budget l + budget l' := by
  simp [budget]

theorem budget_cons (i : ι) (items : List α) (l : List (ι × List α)) :
    budget ((i, items) :: l) = items.length + 1 + budget l := by
  simp [budget]

theorem Shuffles.budget_order (shuffles : Shuffles (ι × List α)) (round : Nat) (l : List (ι × List α)) :
    budget (shuffles.order round l) = budget l :=
  ((shuffles.perm round l).map _).sum_eq

section Budget

variable {visit : α → σ → Option (Bool × σ)}

theorem retainPass_budget {kept iters iters' : List (ι × List α)} {s s' : σ}
    (h : retainPass visit kept iters s = some (iters', s')) :
    budget iters' + iters.length ≤ budget kept + budget iters := by
  induction iters generalizing kept s with
  | nil =>
      simp only [retainPass, Option.some.injEq, Prod.mk.injEq] at h
      obtain ⟨rfl, -⟩ := h
      simp
  | cons it iters ih =>
      obtain ⟨i, items⟩ := it
      cases items with
      | nil =>
          simp only [retainPass] at h
          have later := ih h
          simp only [budget_cons, List.length_cons, List.length_nil] at later ⊢
          omega
      | cons x rest =>
          simp only [retainPass] at h
          cases visited : visit x s with
          | none => rw [visited] at h; cases h
          | some r =>
              obtain ⟨keep, s₁⟩ := r
              rw [visited] at h
              have later := ih h
              simp only [budget_cons, List.length_cons] at later ⊢
              -- a kept iterator moves to `kept` with one item fewer
              split at later
              · rw [budget_append, budget_cons, budget_nil] at later
                omega
              · omega

theorem rounds_spent {shuffles : Shuffles (ι × List α)} {round fuel : Nat} {iters rest : List (ι × List α)}
    {s s' : σ} (enough : budget iters < fuel) (h : rounds visit shuffles round fuel iters s = some (rest, s')) :
    rest = [] := by
  induction fuel generalizing round iters s with
  | zero => omega
  | succ fuel ih =>
      simp only [rounds] at h
      split_ifs at h with spent
      · simp only [Option.some.injEq, Prod.mk.injEq] at h
        exact h.1.symm
      · split at h
        · cases h
        · rename_i iters' s₁ passed
          have shrinks := retainPass_budget passed
          rw [Shuffles.budget_order, (shuffles.perm round iters).length_eq] at shrinks
          have nonempty : 0 < iters.length := by
            cases iters with
            | nil => simp at spent
            | cons _ _ => simp
          simp only [budget, List.map_nil, List.sum_nil] at shrinks
          exact ih (by simp only [budget] at enough ⊢; omega) h

end Budget

/-! ### What each iterator yields -/

theorem orig_unique {origs : List (ι × List α)} (distinct : (origs.map Prod.fst).Nodup) {i : ι}
    {orig orig' : List α} (mem : (i, orig) ∈ origs) (mem' : (i, orig') ∈ origs) : orig = orig' := by
  have same := List.inj_on_of_nodup_map distinct mem mem' rfl
  exact (Prod.mk.inj same).2

section Spec

variable [DecidableEq ι]

/-- The items iterator `i` yielded, in order, among visits recorded with their
iterator and whether the visit kept it. -/
def doneOf (visited : List (ι × α × Bool)) (i : ι) : List α :=
  (visited.filter fun v => v.1 = i).map fun v => v.2.1

theorem doneOf_append_single (visited : List (ι × α × Bool)) (i j : ι) (x : α) (keep : Bool) :
    doneOf (visited ++ [(i, x, keep)]) j = doneOf visited j ++ if i = j then [x] else [] := by
  unfold doneOf
  rw [List.filter_append]
  by_cases same : i = j <;> simp [same]

theorem filterMap_doneOf_append_single {β : Type} (f : α → Option β) (visited : List (ι × α × Bool))
    (i j : ι) (x : α) (keep : Bool) :
    (doneOf (visited ++ [(i, x, keep)]) j).filterMap f =
      (doneOf visited j).filterMap f ++ if i = j then (f x).toList else [] := by
  rw [doneOf_append_single, List.filterMap_append]
  by_cases same : i = j
  · cases found : f x <;> simp [same, found]
  · simp [same]

/-- How the iterators left stand to those at the start, `origs`, after the
visits `visited`: each left is the rest of its original after what it
yielded, with every visit so far keeping it; each gone one yielded all its
items or was let go by a visit; and every iterator yielded a prefix. -/
structure Tracked (origs iters : List (ι × List α)) (visited : List (ι × α × Bool)) : Prop where
  tags : (iters.map Prod.fst).Nodup
  alive : ∀ i rest, (i, rest) ∈ iters →
    (i, doneOf visited i ++ rest) ∈ origs ∧ ∀ v ∈ visited, v.1 = i → v.2.2 = true
  gone : ∀ i orig, (i, orig) ∈ origs → i ∉ iters.map Prod.fst →
    doneOf visited i = orig ∨ ∃ x, (i, x, false) ∈ visited
  yielded : ∀ i orig, (i, orig) ∈ origs → doneOf visited i <+: orig
  fromOrigs : ∀ v ∈ visited, ∃ orig, (v.1, orig) ∈ origs

variable {origs : List (ι × List α)}

theorem tracked_start (distinct : (origs.map Prod.fst).Nodup) : Tracked origs origs [] := by
  refine ⟨distinct, ?_, ?_, ?_, ?_⟩
  · intro i rest mem
    exact ⟨by simpa [doneOf] using mem, by simp⟩
  · intro i orig mem notLeft
    exact absurd (List.mem_map.mpr ⟨(i, orig), mem, rfl⟩) notLeft
  · intro i orig _
    exact List.nil_prefix
  · intro v mem
    cases mem

theorem Tracked.perm {iters iters' : List (ι × List α)} {visited : List (ι × α × Bool)}
    (tracked : Tracked origs iters visited) (perm : iters.Perm iters') : Tracked origs iters' visited := by
  refine ⟨(perm.map Prod.fst).nodup_iff.mp tracked.tags, ?_, ?_, tracked.yielded, tracked.fromOrigs⟩
  · intro i rest mem
    exact tracked.alive i rest (perm.mem_iff.mpr mem)
  · intro i orig mem notLeft
    exact tracked.gone i orig mem (fun left => notLeft ((perm.map Prod.fst).mem_iff.mp left))

variable (distinct : (origs.map Prod.fst).Nodup)
include distinct

theorem Tracked.dropSpent {kept iters : List (ι × List α)} {visited : List (ι × α × Bool)} {i : ι}
    (tracked : Tracked origs (kept ++ (i, []) :: iters) visited) : Tracked origs (kept ++ iters) visited := by
  have spent := tracked.alive i [] (by simp)
  have notLeft : i ∉ (kept ++ iters).map Prod.fst := by
    have tags := tracked.tags
    simp only [List.map_append, List.map_cons] at tags
    have apart := (List.nodup_middle.mp tags)
    simp only [List.map_append] at apart ⊢
    exact (List.nodup_cons.mp apart).1
  refine ⟨?_, ?_, ?_, tracked.yielded, tracked.fromOrigs⟩
  · have tags := tracked.tags
    simp only [List.map_append, List.map_cons] at tags ⊢
    exact (List.nodup_cons.mp (List.nodup_middle.mp tags)).2
  · intro j rest mem
    exact tracked.alive j rest (by simp only [List.mem_append, List.mem_cons] at mem ⊢; tauto)
  · intro j orig mem notLeft'
    by_cases same : j = i
    · subst same
      left
      rw [List.append_nil] at spent
      exact orig_unique distinct spent.1 mem
    · refine tracked.gone j orig mem ?_
      simp only [List.map_append, List.map_cons, List.mem_append, List.mem_cons] at notLeft' ⊢
      tauto

theorem Tracked.visit {kept iters : List (ι × List α)} {visited : List (ι × α × Bool)} {i : ι} {x : α}
    {rest : List α} (tracked : Tracked origs (kept ++ (i, x :: rest) :: iters) visited) (keep : Bool) :
    Tracked origs ((if keep then kept ++ [(i, rest)] else kept) ++ iters) (visited ++ [(i, x, keep)]) := by
  obtain ⟨origHere, allKept⟩ := tracked.alive i (x :: rest) (by simp)
  have tags := tracked.tags
  simp only [List.map_append, List.map_cons] at tags
  have apart := List.nodup_middle.mp tags
  have notElse : i ∉ (kept.map Prod.fst ++ iters.map Prod.fst) := (List.nodup_cons.mp apart).1
  have others : ∀ j rest', (j, rest') ∈ kept ++ iters → j ≠ i := by
    intro j rest' mem same
    subst same
    exact notElse (by simp only [List.mem_append, List.mem_map] at mem ⊢; rcases mem with m | m <;> [exact .inl ⟨_, m, rfl⟩; exact .inr ⟨_, m, rfl⟩])
  have doneElse : ∀ j, j ≠ i → doneOf (visited ++ [(i, x, keep)]) j = doneOf visited j := by
    intro j apartFrom
    rw [doneOf_append_single, if_neg (Ne.symm apartFrom), List.append_nil]
  have doneHere : doneOf (visited ++ [(i, x, keep)]) i = doneOf visited i ++ [x] := by
    rw [doneOf_append_single, if_pos rfl]
  -- an iterator other than `i` is where it was, and every visit of it kept it
  have aliveElse : ∀ j rest', (j, rest') ∈ kept ++ iters →
      (j, doneOf (visited ++ [(i, x, keep)]) j ++ rest') ∈ origs ∧
        ∀ v ∈ visited ++ [(i, x, keep)], v.1 = j → v.2.2 = true := by
    intro j rest' mem
    have apartFrom := others j rest' mem
    rw [doneElse j apartFrom]
    obtain ⟨origThere, keptThere⟩ := tracked.alive j rest' (by
      simp only [List.mem_append, List.mem_cons] at mem ⊢
      tauto)
    refine ⟨origThere, ?_⟩
    intro v mem'
    rcases List.mem_append.mp mem' with old | new
    · exact keptThere v old
    · rw [List.mem_singleton.mp new]
      intro same
      exact absurd same.symm apartFrom
  refine ⟨?_, ?_, ?_, ?_, ?_⟩
  · -- the tags stay distinct
    cases keep
    · simpa using (List.nodup_cons.mp apart).2
    · simp only [if_pos, List.map_append, List.map_cons, List.map_nil]
      simp only [List.append_assoc, List.singleton_append]
      exact List.nodup_middle.mpr (by simpa using apart)
  · intro j rest' mem
    cases keep
    · -- the iterator left is not `i`
      simp only [Bool.false_eq_true, if_false] at mem
      exact aliveElse j rest' mem
    · simp only [if_true, List.mem_append, List.mem_singleton] at mem
      rcases mem with (inKept | here) | inIters
      · exact aliveElse j rest' (List.mem_append_left _ inKept)
      · obtain ⟨rfl, rfl⟩ := Prod.mk.inj here
        rw [doneHere, List.append_assoc, List.singleton_append]
        refine ⟨origHere, ?_⟩
        intro v mem'
        rcases List.mem_append.mp mem' with old | new
        · exact allKept v old
        · rw [List.mem_singleton.mp new]
          intro _
          rfl
      · exact aliveElse j rest' (List.mem_append_right _ inIters)
  · intro j orig mem notLeft
    by_cases same : j = i
    · -- `i` is gone only when this visit let it go
      subst same
      cases keep
      · exact .inr ⟨x, by simp⟩
      · exact absurd (by simp) notLeft
    · rcases tracked.gone j orig mem (by
          simp only [List.map_append, List.map_cons, List.mem_append, List.mem_cons] at notLeft ⊢
          cases keep <;> simp_all) with all | letGo
      · exact .inl ((doneElse j same).trans all)
      · obtain ⟨y, mem'⟩ := letGo
        exact .inr ⟨y, List.mem_append_left _ mem'⟩
  · intro j orig mem
    by_cases same : j = i
    · subst same
      rw [doneHere, orig_unique distinct mem origHere]
      exact ⟨rest, by simp⟩
    · rw [doneElse j same]
      exact tracked.yielded j orig mem
  · intro v mem
    rcases List.mem_append.mp mem with old | new
    · exact tracked.fromOrigs v old
    · rw [List.mem_singleton.mp new]
      exact ⟨_, origHere⟩

end Spec

/-! ### The loop's invariant -/

section Invariant

variable [DecidableEq ι] {visit : α → σ → Option (Bool × σ)} (I : List (ι × α × Bool) → σ → Prop)

/-- What a visit may rely on to keep `I`: the item is the next of its
iterator's original items, and every earlier visit of that iterator kept it. -/
def Preserves (origs : List (ι × List α)) (visit : α → σ → Option (Bool × σ)) : Prop :=
  ∀ visited s i orig x keep s', (i, orig) ∈ origs → doneOf visited i ++ [x] <+: orig →
    (∀ v ∈ visited, v.1 = i → v.2.2 = true) → I visited s → visit x s = some (keep, s') →
    I (visited ++ [(i, x, keep)]) s'

variable {I} {origs : List (ι × List α)} (distinct : (origs.map Prod.fst).Nodup)
include distinct

theorem retainPass_spec (preserve : Preserves I origs visit) {kept iters iters' : List (ι × List α)}
    {visited : List (ι × α × Bool)} {s s' : σ} (tracked : Tracked origs (kept ++ iters) visited)
    (holds : I visited s) (h : retainPass visit kept iters s = some (iters', s')) :
    ∃ visited', Tracked origs iters' visited' ∧ I visited' s' := by
  induction iters generalizing kept visited s with
  | nil =>
      simp only [retainPass, Option.some.injEq, Prod.mk.injEq] at h
      obtain ⟨rfl, rfl⟩ := h
      exact ⟨visited, by simpa using tracked, holds⟩
  | cons it iters ih =>
      obtain ⟨i, items⟩ := it
      cases items with
      | nil =>
          simp only [retainPass] at h
          exact ih (tracked.dropSpent distinct) holds h
      | cons x rest =>
          simp only [retainPass] at h
          cases visited' : visit x s with
          | none => rw [visited'] at h; cases h
          | some r =>
              obtain ⟨keep, s₁⟩ := r
              rw [visited'] at h
              -- the visit sees the next item of `i`, after all that `i` yielded
              obtain ⟨origHere, allKept⟩ := tracked.alive i (x :: rest) (by simp)
              have next : doneOf visited i ++ [x] <+: doneOf visited i ++ x :: rest :=
                ⟨rest, by simp⟩
              have holds' := preserve visited s i _ x keep s₁ origHere next allKept holds visited'
              exact ih (tracked.visit distinct keep) holds' h

theorem rounds_spec (preserve : Preserves I origs visit) {shuffles : Shuffles (ι × List α)}
    {round fuel : Nat} {iters rest : List (ι × List α)} {visited : List (ι × α × Bool)} {s s' : σ}
    (tracked : Tracked origs iters visited) (holds : I visited s)
    (h : rounds visit shuffles round fuel iters s = some (rest, s')) :
    ∃ visited', Tracked origs rest visited' ∧ I visited' s' := by
  induction fuel generalizing round iters visited s with
  | zero =>
      simp only [rounds, Option.some.injEq, Prod.mk.injEq] at h
      obtain ⟨rfl, rfl⟩ := h
      exact ⟨visited, tracked, holds⟩
  | succ fuel ih =>
      simp only [rounds] at h
      split_ifs at h with spent
      · simp only [Option.some.injEq, Prod.mk.injEq] at h
        obtain ⟨rfl, rfl⟩ := h
        rw [List.isEmpty_iff.mp spent] at tracked
        exact ⟨visited, tracked, holds⟩
      · split at h
        · cases h
        · rename_i iters' s₁ passed
          -- the round's order is a permutation, and `Tracked` does not see the order
          have shuffled := tracked.perm (shuffles.perm round iters).symm
          obtain ⟨visited₁, tracked₁, holds₁⟩ :=
            retainPass_spec distinct preserve (by simpa using shuffled) holds passed
          exact ih tracked₁ holds₁ h

theorem rounds_yield (preserve : Preserves I origs visit) {shuffles : Shuffles (ι × List α)}
    {round fuel : Nat} {rest : List (ι × List α)} {s s' : σ} (holds : I [] s) (enough : budget origs < fuel)
    (h : rounds visit shuffles round fuel origs s = some (rest, s')) :
    rest = [] ∧ ∃ visited, I visited s' ∧
      (∀ i orig, (i, orig) ∈ origs →
        doneOf visited i <+: orig ∧ (doneOf visited i = orig ∨ ∃ x, (i, x, false) ∈ visited)) ∧
      ∀ i, i ∉ origs.map Prod.fst → doneOf visited i = [] := by
  have spent := rounds_spent enough h
  obtain ⟨visited, tracked, holds'⟩ := rounds_spec distinct preserve (tracked_start distinct) holds h
  subst spent
  refine ⟨rfl, visited, holds', ?_, ?_⟩
  · intro i orig mem
    exact ⟨tracked.yielded i orig mem, tracked.gone i orig mem (by simp)⟩
  · -- every visit is of an original iterator
    intro i notTag
    rw [doneOf, List.map_eq_nil_iff, List.filter_eq_nil_iff]
    intro w mem same
    obtain ⟨orig, mem'⟩ := tracked.fromOrigs w mem
    exact notTag (List.mem_map.mpr ⟨(w.1, orig), mem', by simpa using same⟩)

end Invariant

end GravitySdk.Lib.RoundRobin
