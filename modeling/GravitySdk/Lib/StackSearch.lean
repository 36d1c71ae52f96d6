/- Depth-first collection with an explicit stack.
   digest: The loop that pops a node, pushes its successors and records the
   node: its terminating runs as a relation, the fuel that the length of the
   output bounds, the append law, which nodes it records, and that on a forest
   it records each of them once.  Beside it, two facts of forests: the nodes
   that reach a common node are ordered, and cutting the edges into a set of
   nodes removes exactly what those nodes reach.  Last, successors found by
   lookups, through List.mapM in Option. -/

import Mathlib

set_option autoImplicit false
set_option relaxedAutoImplicit false

namespace GravitySdk.Lib.StackSearch

open Relation

variable {α : Type}

section Loop

variable (next : α → Option (List α))

/-- The loop `while let Some(x) = stack.pop() { push each of next x; record x }`,
the top of the stack at the head of the list: after pushing `c₁, …, cₖ` the
next pop takes `cₖ`.  `next` fails where the source panics; the loop fails too
when it runs out of fuel. -/
def drain : Nat → List α → Option (List α)
  | _, [] => some []
  | 0, _ :: _ => none
  | fuel + 1, x :: rest =>
      match next x with
      | none => none
      | some cs => (drain fuel (cs.reverse ++ rest)).map (x :: ·)

/-- The loop ends from a stack, having recorded `out`. -/
inductive Drains : List α → List α → Prop
  | nil : Drains [] []
  | pop {x : α} {cs rest out : List α} : next x = some cs → Drains (cs.reverse ++ rest) out →
      Drains (x :: rest) (x :: out)

/-- `b` is pushed when `a` is popped. -/
def Succ (a b : α) : Prop := ∃ cs, next a = some cs ∧ b ∈ cs

variable {next}

theorem drain_of_drains {s out : List α} (h : Drains next s out) {fuel : Nat}
    (enough : out.length ≤ fuel) : drain next fuel s = some out := by
  induction h generalizing fuel with
  | nil => cases fuel <;> rfl
  | pop hx _ ih =>
      obtain ⟨fuel, rfl⟩ : ∃ f, fuel = f + 1 := ⟨fuel - 1, by simp at enough; omega⟩
      simp only [drain, hx]
      rw [ih (by simpa using enough)]
      rfl

theorem Drains.append {xs ys o₁ o₂ : List α} (h₁ : Drains next xs o₁) (h₂ : Drains next ys o₂) :
    Drains next (xs ++ ys) (o₁ ++ o₂) := by
  induction h₁ with
  | nil => simpa using h₂
  | pop hx _ ih =>
      refine .pop hx ?_
      simpa using ih

theorem Drains.split {xs ys out : List α} (h : Drains next (xs ++ ys) out) :
    ∃ o₁ o₂, out = o₁ ++ o₂ ∧ Drains next xs o₁ ∧ Drains next ys o₂ := by
  generalize hs : xs ++ ys = s at h
  induction h generalizing xs with
  | nil =>
      obtain ⟨rfl, rfl⟩ := List.append_eq_nil_iff.mp hs
      exact ⟨[], [], rfl, .nil, .nil⟩
  | @pop x cs rest out hx _ ih =>
      cases xs with
      | nil =>
          subst hs
          exact ⟨[], x :: out, rfl, .nil, .pop hx ‹_›⟩
      | cons x' xs =>
          obtain ⟨hx', hrest⟩ := List.cons.inj hs
          subst hrest
          obtain ⟨o₁, o₂, rfl, h₁, h₂⟩ :=
            ih (by simp : (cs.reverse ++ xs) ++ ys = cs.reverse ++ (xs ++ ys))
          refine ⟨x :: o₁, o₂, rfl, ?_, h₂⟩
          rw [hx']
          exact .pop hx h₁

theorem Drains.mem_iff {s out : List α} (h : Drains next s out) {y : α} :
    y ∈ out ↔ ∃ x ∈ s, ReflTransGen (Succ next) x y := by
  induction h with
  | nil => simp
  | @pop x cs rest out hx _ ih =>
      constructor
      · intro hy
        rcases List.mem_cons.mp hy with hyx | hy
        · exact ⟨x, List.mem_cons_self, hyx ▸ .refl⟩
        · obtain ⟨z, hz, hzy⟩ := ih.mp hy
          rcases List.mem_append.mp hz with hz | hz
          · exact ⟨x, List.mem_cons_self, .head ⟨cs, hx, List.mem_reverse.mp hz⟩ hzy⟩
          · exact ⟨z, List.mem_cons_of_mem _ hz, hzy⟩
      · rintro ⟨z, hz, hzy⟩
        rcases List.mem_cons.mp hz with rfl | hz
        · rcases ReflTransGen.cases_head hzy with rfl | ⟨c, ⟨cs', hcs', hc⟩, hcy⟩
          · exact List.mem_cons_self
          · rw [hx] at hcs'
            cases hcs'
            exact List.mem_cons_of_mem _ (ih.mpr ⟨c, by simp [hc], hcy⟩)
        · exact List.mem_cons_of_mem _ (ih.mpr ⟨z, by simp [hz], hzy⟩)

end Loop

section Forest

/-! Facts of a relation whose edges, among the nodes where `good` holds, have
one source each: a forest of the good nodes with edges from parent to child. -/

variable {r : α → α → Prop} {good : α → Prop}

theorem good_of_reach (closed : ∀ a b, good a → r a b → good b) {a b : α} (ha : good a)
    (hab : ReflTransGen r a b) : good b := by
  induction hab with
  | refl => exact ha
  | tail _ hbc ih => exact closed _ _ ih hbc

theorem rank_le_of_reach {rank : α → Nat} (closed : ∀ a b, good a → r a b → good b)
    (descends : ∀ a b, good a → r a b → rank b < rank a) {a b : α} (ha : good a)
    (hab : ReflTransGen r a b) : rank b ≤ rank a := by
  induction hab with
  | refl => exact Nat.le_refl _
  | tail hab' hbc ih =>
      have := descends _ _ (good_of_reach closed ha hab') hbc
      omega

theorem reach_total (closed : ∀ a b, good a → r a b → good b)
    (unique : ∀ a b c, good a → good b → r a c → r b c → a = b) {a b y : α}
    (ha : good a) (hb : good b) (hay : ReflTransGen r a y) (hby : ReflTransGen r b y) :
    ReflTransGen r a b ∨ ReflTransGen r b a := by
  induction hby with
  | refl => exact .inl hay
  | @tail z y hbz hzy ih =>
      rcases ReflTransGen.cases_tail hay with rfl | ⟨w, haw, hwy⟩
      · exact .inr (hbz.tail hzy)
      · have hw : w = z :=
          unique _ _ _ (good_of_reach closed ha haw) (good_of_reach closed hb hbz) hwy hzy
        subst hw
        exact ih haw

theorem reach_cut_iff (closed : ∀ a b, good a → r a b → good b)
    (unique : ∀ a b c, good a → good b → r a c → r b c → a = b) (cut : α → Prop)
    {root y : α} (hroot : good root) (cutGood : ∀ z, cut z → good z)
    (above : ∀ z, cut z → ¬ ReflTransGen r z root) :
    ReflTransGen (fun a b => r a b ∧ ¬ cut b) root y ↔
      ReflTransGen r root y ∧ ∀ z, cut z → ¬ ReflTransGen r z y := by
  constructor
  · intro h
    refine ⟨ReflTransGen.mono (fun _ _ (e : r _ _ ∧ ¬ cut _) => e.1) _ _ h, ?_⟩
    induction h with
    | refl => exact above
    | @tail w y hw e ih =>
        intro z hz hzy
        rcases ReflTransGen.cases_tail hzy with rfl | ⟨v, hzv, hvy⟩
        · exact e.2 hz
        · have hv : v = w :=
            unique _ _ _ (good_of_reach closed (cutGood z hz) hzv)
              (good_of_reach closed hroot
                (ReflTransGen.mono (fun _ _ (e : r _ _ ∧ ¬ cut _) => e.1) _ _ hw)) hvy e.1
          subst hv
          exact ih z hz hzv
  · rintro ⟨h, free⟩
    induction h with
    | refl => exact .refl
    | @tail w y hw e ih =>
        have notCut : ¬ cut y := fun hy => free y hy .refl
        exact (ih (fun z hz hzw => free z hz (hzw.tail e))).tail ⟨e, notCut⟩

theorem reach_congr {r' : α → α → Prop} (closed : ∀ a b, good a → r a b → good b)
    (same : ∀ a b, good a → (r a b ↔ r' a b)) {a b : α} (ha : good a) :
    ReflTransGen r a b ↔ ReflTransGen r' a b := by
  have closed' : ∀ a b, good a → r' a b → good b :=
    fun a b hg e => closed a b hg ((same a b hg).mpr e)
  constructor
  · intro h
    induction h with
    | refl => exact .refl
    | tail hab e ih => exact ih.tail ((same _ _ (good_of_reach closed ha hab)).mp e)
  · intro h
    induction h with
    | refl => exact .refl
    | tail hab e ih => exact ih.tail ((same _ _ (good_of_reach closed' ha hab)).mpr e)

end Forest

section Terminates

variable {next : α → Option (List α)} {good : α → Prop} {rank : α → Nat}

theorem exists_drains (total : ∀ a, good a → ∃ cs, next a = some cs)
    (closed : ∀ a b, good a → Succ next a b → good b)
    (descends : ∀ a b, good a → Succ next a b → rank b < rank a) :
    ∀ s : List α, (∀ x ∈ s, good x) → ∃ out, Drains next s out := by
  -- first a single node, by strong induction on its rank
  have single : ∀ n x, rank x = n → good x → ∃ out, Drains next [x] out := by
    intro n
    induction n using Nat.strongRecOn with
    | ind n ih =>
        intro x hn hx
        obtain ⟨cs, hcs⟩ := total x hx
        have each : ∀ s : List α, (∀ c ∈ s, Succ next x c) → ∃ out, Drains next s out := by
          intro s
          induction s with
          | nil => exact fun _ => ⟨[], .nil⟩
          | cons c s ihs =>
              intro hs
              have hc := hs c List.mem_cons_self
              obtain ⟨o₁, h₁⟩ :=
                ih (rank c) (hn ▸ descends x c hx hc) c rfl (closed x c hx hc)
              obtain ⟨o₂, h₂⟩ := ihs (fun d hd => hs d (List.mem_cons_of_mem _ hd))
              exact ⟨o₁ ++ o₂, by simpa using h₁.append h₂⟩
        obtain ⟨out, hout⟩ := each cs.reverse (fun c hc => ⟨cs, hcs, List.mem_reverse.mp hc⟩)
        exact ⟨x :: out, .pop hcs (by simpa using hout)⟩
  intro s
  induction s with
  | nil => exact fun _ => ⟨[], .nil⟩
  | cons x s ih =>
      intro hs
      obtain ⟨o₁, h₁⟩ := single _ x rfl (hs x List.mem_cons_self)
      obtain ⟨o₂, h₂⟩ := ih (fun y hy => hs y (List.mem_cons_of_mem _ hy))
      exact ⟨o₁ ++ o₂, by simpa using h₁.append h₂⟩

theorem Drains.nodup (closed : ∀ a b, good a → Succ next a b → good b)
    (descends : ∀ a b, good a → Succ next a b → rank b < rank a)
    (unique : ∀ a b c, good a → good b → Succ next a c → Succ next b c → a = b)
    (distinct : ∀ a cs, good a → next a = some cs → cs.Nodup) :
    ∀ n x out, rank x = n → good x → Drains next [x] out → out.Nodup := by
  intro n
  induction n using Nat.strongRecOn with
  | ind n ih =>
      intro x out hn hx h
      cases h with
      | @pop _ cs _ out hcs hrest =>
          rw [List.append_nil] at hrest
          -- the recorded nodes below `x` are the runs from its children, each
          -- reached from one child only
          have runs : ∀ s o, Drains next s o → s.Nodup → (∀ c ∈ s, Succ next x c) →
              o.Nodup ∧ ∀ y ∈ o, ∃ c ∈ s, ReflTransGen (Succ next) c y := by
            intro s
            induction s with
            | nil =>
                intro o ho _ _
                cases ho
                simp
            | cons c s ihs =>
                intro o ho hnd hs
                have ho' : Drains next ([c] ++ s) o := ho
                obtain ⟨o₁, o₂, rfl, h₁, h₂⟩ := Drains.split ho'
                have hc := hs c List.mem_cons_self
                have nd₁ := ih (rank c) (hn ▸ descends x c hx hc) c o₁ rfl (closed x c hx hc) h₁
                obtain ⟨nd₂, in₂⟩ := ihs o₂ h₂ (List.nodup_cons.mp hnd).2
                  (fun d hd => hs d (List.mem_cons_of_mem _ hd))
                refine ⟨List.nodup_append.mpr ⟨nd₁, nd₂, ?_⟩, ?_⟩
                · intro y hy₁ y' hy₂ hyy
                  subst hyy
                  obtain ⟨c', hc', hcy⟩ := (h₁.mem_iff).mp hy₁
                  rw [List.mem_singleton] at hc'
                  subst c'
                  obtain ⟨d, hd, hdy⟩ := in₂ y hy₂
                  have hdx := hs d (List.mem_cons_of_mem _ hd)
                  have hcd : c ≠ d := fun e => (List.nodup_cons.mp hnd).1 (e ▸ hd)
                  -- the sibling that reaches the other one would reach `x`
                  have below : ∀ u v, Succ next x u → Succ next x v → u ≠ v →
                      ¬ ReflTransGen (Succ next) u v := by
                    intro u v hu hv huv huv'
                    rcases ReflTransGen.cases_tail huv' with rfl | ⟨w, huw, hwv⟩
                    · exact huv rfl
                    · have hgu := closed x u hx hu
                      have hw : w = x :=
                        unique _ _ _ (good_of_reach closed hgu huw) hx hwv hv
                      subst hw
                      have := rank_le_of_reach closed descends hgu huw
                      have := descends _ u hx hu
                      omega
                  rcases reach_total closed unique (closed x c hx hc) (closed x d hx hdx) hcy hdy
                    with hcd' | hdc'
                  · exact below c d hc hdx hcd hcd'
                  · exact below d c hdx hc (Ne.symm hcd) hdc'
                · intro y hy
                  rcases List.mem_append.mp hy with hy | hy
                  · obtain ⟨c', hc', hcy⟩ := (h₁.mem_iff).mp hy
                    exact ⟨c', by simp_all, hcy⟩
                  · obtain ⟨d, hd, hdy⟩ := in₂ y hy
                    exact ⟨d, List.mem_cons_of_mem _ hd, hdy⟩
          obtain ⟨nd, reach⟩ := runs cs.reverse out hrest
            (List.nodup_reverse.mpr (distinct x cs hx hcs))
            (fun c hc => ⟨cs, hcs, List.mem_reverse.mp hc⟩)
          refine List.nodup_cons.mpr ⟨fun hxo => ?_, nd⟩
          -- `x` is not below any of its children: ranks fall along edges
          obtain ⟨c, hc, hcx⟩ := reach x hxo
          have hxc : Succ next x c := ⟨cs, hcs, List.mem_reverse.mp hc⟩
          have := rank_le_of_reach closed descends (closed x c hx hxc) hcx
          have := descends x c hx hxc
          omega

end Terminates

section Lookups

/-! A search that looks its successors up, and fails on a missing one, pushes
through `List.mapM` in `Option`. -/

variable {β : Type} {f : α → Option β}

theorem mapM_eq_some_cons {a : α} {l : List α} {cs : List β} (h : (a :: l).mapM f = some cs) :
    ∃ b bs, f a = some b ∧ l.mapM f = some bs ∧ cs = b :: bs := by
  simp only [List.mapM_cons, Option.bind_eq_bind, Option.bind_eq_some_iff, Option.pure_def,
    Option.some.injEq] at h
  obtain ⟨b, hb, bs, hbs, rfl⟩ := h
  exact ⟨b, bs, hb, hbs, rfl⟩

theorem mem_of_mapM_eq_some {l : List α} {cs : List β} (h : l.mapM f = some cs) {b : β} :
    b ∈ cs ↔ ∃ a ∈ l, f a = some b := by
  induction l generalizing cs with
  | nil =>
      cases h
      simp
  | cons a l ih =>
      obtain ⟨b', bs, hb', hbs, rfl⟩ := mapM_eq_some_cons h
      simp [ih hbs, hb', eq_comm]

theorem exists_mapM_eq_some {l : List α} (h : ∀ a ∈ l, (f a).isSome) :
    ∃ cs, l.mapM f = some cs := by
  induction l with
  | nil => exact ⟨[], rfl⟩
  | cons a l ih =>
      obtain ⟨b, hb⟩ := Option.isSome_iff_exists.mp (h a List.mem_cons_self)
      obtain ⟨bs, hbs⟩ := ih (fun x hx => h x (List.mem_cons_of_mem _ hx))
      exact ⟨b :: bs, by simp [hb, hbs]⟩

theorem nodup_of_mapM_eq_some {l : List α} {cs : List β} (h : l.mapM f = some cs)
    (inj : ∀ a a' b, f a = some b → f a' = some b → a = a') (hl : l.Nodup) : cs.Nodup := by
  induction l generalizing cs with
  | nil =>
      cases h
      exact List.nodup_nil
  | cons a l ih =>
      obtain ⟨b, bs, hb, hbs, rfl⟩ := mapM_eq_some_cons h
      obtain ⟨notMem, hl⟩ := List.nodup_cons.mp hl
      refine List.nodup_cons.mpr ⟨fun hmem => ?_, ih hbs hl⟩
      obtain ⟨a', ha', hfa'⟩ := (mem_of_mapM_eq_some hbs).mp hmem
      exact notMem (inj a a' b hb hfa' ▸ ha')

end Lookups

end GravitySdk.Lib.StackSearch
