/- Which blocks the pruning search returns.
   digest: On a tree whose child links match the parent ids, whose live part
   (what the commit root reaches) is stored, and whose rounds rise from parent
   to child, the search of find_blocks_to_prune towards a block of the commit
   root's subtree ends within its fuel and returns, once each, exactly the
   blocks of that subtree outside the new root's subtree, in whatever order
   the children's hash sets iterate. -/

import Mathlib
import GravitySdk.BlockStorage.BlockTree

set_option autoImplicit false
set_option relaxedAutoImplicit false

namespace GravitySdk.BlockStorage.BlockTree

open GravitySdk.Consensus GravitySdk.Lib GravitySdk.Lib.StackSearch Relation

/-- `c` is recorded as a child of the stored block `p`. -/
def ChildOf (t : BlockTree) (p c : HashValue) : Prop :=
  ∃ lp, t.getLinkableBlock p = some lp ∧ c ∈ lp.children

/-- `y` is reached from `r` through child links. -/
def Subtree (t : BlockTree) (r y : HashValue) : Prop := ReflTransGen t.ChildOf r y

/-- The shape of the tree that the pruning search relies on. -/
structure Shaped (t : BlockTree) : Prop where
  keyed : ∀ k lb, t.getLinkableBlock k = some lb → lb.id = k
  linked : ∀ p c lp lc, t.getLinkableBlock p = some lp → t.getLinkableBlock c = some lc →
    (c ∈ lp.children ↔ lc.executedBlock.parentId = p)
  childrenNodup : ∀ p lp, t.getLinkableBlock p = some lp → lp.children.Nodup
  liveStored : ∀ y, t.Subtree t.commitRootId y → t.blockExists y = true
  roundsRise : ∀ p c lp lc, t.getLinkableBlock p = some lp → t.getLinkableBlock c = some lc →
    c ∈ lp.children → lp.executedBlock.round < lc.executedBlock.round

/-- A child link between stored blocks, seen on the blocks themselves. -/
def BlockEdge (t : BlockTree) (a b : LinkableBlock) : Prop :=
  t.ChildOf a.id b.id ∧ t.getLinkableBlock b.id = some b

section Shaped

variable {t : BlockTree}

theorem Shaped.stored (shaped : t.Shaped) {y : HashValue} (hy : t.Subtree t.commitRootId y) :
    ∃ ly, t.getLinkableBlock y = some ly :=
  Option.isSome_iff_exists.mp (shaped.liveStored y hy)

theorem Shaped.round_le (shaped : t.Shaped) {r y : HashValue} {lr ly : LinkableBlock}
    (hry : t.Subtree r y) (getR : t.getLinkableBlock r = some lr)
    (getY : t.getLinkableBlock y = some ly) :
    lr.executedBlock.round ≤ ly.executedBlock.round ∧
      (r ≠ y → lr.executedBlock.round < ly.executedBlock.round) := by
  induction hry generalizing ly with
  | refl =>
      rw [getR] at getY
      cases getY
      exact ⟨Nat.le_refl _, fun h => absurd rfl h⟩
  | @tail w y hrw hwy ih =>
      obtain ⟨lw, getW, hmem⟩ := hwy
      have rise := shaped.roundsRise w y lw ly getW getY hmem
      have below := (ih getW).1
      exact ⟨by omega, fun _ => by omega⟩

theorem Shaped.parent_unique (shaped : t.Shaped) {a b : LinkableBlock} {c : HashValue}
    {lc : LinkableBlock} (getA : t.getLinkableBlock a.id = some a)
    (getB : t.getLinkableBlock b.id = some b) (getC : t.getLinkableBlock c = some lc)
    (ha : c ∈ a.children) (hb : c ∈ b.children) : a = b := by
  have pa := (shaped.linked _ _ _ _ getA getC).mp ha
  have pb := (shaped.linked _ _ _ _ getB getC).mp hb
  have hid : a.id = b.id := pa.symm.trans pb
  rw [hid, getB] at getA
  exact (Option.some.inj getA).symm

theorem Shaped.reach_blockEdge_iff (shaped : t.Shaped) {a b : LinkableBlock}
    (getA : t.getLinkableBlock a.id = some a) (live : t.Subtree t.commitRootId a.id) :
    ReflTransGen t.BlockEdge a b ↔ t.Subtree a.id b.id ∧ t.getLinkableBlock b.id = some b := by
  constructor
  · intro h
    induction h with
    | refl => exact ⟨.refl, getA⟩
    | tail _ e ih => exact ⟨ih.1.tail e.1, e.2⟩
  · rintro ⟨path, getB⟩
    -- induction on the path of ids, the blocks being the stored ones
    suffices ∀ y, t.Subtree a.id y → ∀ lb, t.getLinkableBlock y = some lb →
        ReflTransGen t.BlockEdge a lb from this _ path b getB
    intro y hy
    induction hy with
    | refl =>
        intro lb getY
        rw [getA] at getY
        cases getY
        exact .refl
    | @tail w y haw hwy ih =>
        intro lb getY
        obtain ⟨lw, getW⟩ := shaped.stored (live.trans haw)
        have hw := shaped.keyed _ _ getW
        have hy := shaped.keyed _ _ getY
        refine (ih lw getW).tail ⟨?_, by rw [hy]; exact getY⟩
        rw [hw, hy]
        exact hwy

end Shaped

section Search

variable {t : BlockTree} {order : ChildrenOrder} {n : HashValue}

/-- The blocks the search may pop: stored live blocks. -/
def Searchable (t : BlockTree) (lb : LinkableBlock) : Prop :=
  t.getLinkableBlock lb.id = some lb ∧ t.Subtree t.commitRootId lb.id

theorem Shaped.succ_iff (shaped : t.Shaped) {nlb a b : LinkableBlock}
    (getN : t.getLinkableBlock n = some nlb) (ha : t.Searchable a) :
    Succ (t.pruneSuccessors order n) a b ↔ t.BlockEdge a b ∧ ¬ b = nlb := by
  obtain ⟨cs, hcs⟩ : ∃ cs, t.pruneSuccessors order n a = some cs := by
    refine exists_mapM_eq_some (fun c hc => ?_)
    have hc' : t.ChildOf a.id c := ⟨a, ha.1, (order.perm a).mem_iff.mp (List.mem_filter.mp hc).1⟩
    exact shaped.liveStored c (ha.2.tail hc')
  -- the order of iteration does not change which children are pushed
  have mem : b ∈ cs ↔ ∃ c ∈ a.children, c ≠ n ∧ t.getLinkableBlock c = some b := by
    rw [mem_of_mapM_eq_some hcs]
    simp [and_assoc, (order.perm a).mem_iff]
  constructor
  · rintro ⟨cs', hcs', hb⟩
    rw [hcs] at hcs'
    cases hcs'
    obtain ⟨c, hc, hcn, getC⟩ := mem.mp hb
    have hid := shaped.keyed _ _ getC
    subst hid
    refine ⟨⟨⟨a, ha.1, hc⟩, getC⟩, fun hbn => hcn ?_⟩
    rw [hbn]
    exact shaped.keyed _ _ getN
  · rintro ⟨⟨⟨la, getA, hc⟩, getB⟩, hbn⟩
    rw [ha.1] at getA
    cases getA
    refine ⟨cs, hcs, mem.mpr ⟨b.id, hc, fun hid => hbn ?_, getB⟩⟩
    rw [hid, getN] at getB
    exact (Option.some.inj getB).symm

theorem Searchable.edge {a b : LinkableBlock} (ha : t.Searchable a) (e : t.BlockEdge a b) :
    t.Searchable b :=
  ⟨e.2, ha.2.tail e.1⟩

theorem Shaped.blockEdge_unique (shaped : t.Shaped) {a b c : LinkableBlock} (ha : t.Searchable a)
    (hb : t.Searchable b) (ea : t.BlockEdge a c) (eb : t.BlockEdge b c) : a = b := by
  obtain ⟨⟨la, getA, hca⟩, getC⟩ := ea
  obtain ⟨⟨lb, getB, hcb⟩, -⟩ := eb
  rw [ha.1] at getA
  rw [hb.1] at getB
  cases getA
  cases getB
  exact shaped.parent_unique ha.1 hb.1 getC hca hcb

/-- The sum of the stored rounds, above every stored round. -/
def roundBound (t : BlockTree) : Nat :=
  (t.idToBlock.entries.map fun e => e.2.executedBlock.round).sum

theorem round_le_roundBound {lb : LinkableBlock} {k : HashValue}
    (h : t.getLinkableBlock k = some lb) : lb.executedBlock.round ≤ t.roundBound :=
  List.le_sum_of_mem (List.mem_map.mpr ⟨(k, lb), KeyMap.mem_entries_of_get h, rfl⟩)

variable (order) in
theorem Shaped.findBlocksToPrune_spec (shaped : t.Shaped) (hn : t.Subtree t.commitRootId n) :
    ∃ pruned, t.findBlocksToPrune order n = some pruned ∧ (pruned.map Prod.snd).Nodup ∧
      ∀ y, y ∈ pruned.map Prod.snd ↔ t.Subtree t.commitRootId y ∧ ¬ t.Subtree n y := by
  by_cases hC : n = t.commitRootId
  · subst hC
    exact ⟨[], by simp [findBlocksToPrune], List.nodup_nil, by simp⟩
  obtain ⟨nlb, getN⟩ := shaped.stored hn
  obtain ⟨croot, getC⟩ := shaped.stored (.refl : t.Subtree t.commitRootId t.commitRootId)
  have above := (shaped.round_le hn getC getN).2 (Ne.symm hC)
  have nId := shaped.keyed _ _ getN
  have cId := shaped.keyed _ _ getC
  have goodN : t.Searchable nlb := ⟨by rw [nId]; exact getN, by rw [nId]; exact hn⟩
  have goodC : t.Searchable croot := ⟨by rw [cId]; exact getC, by rw [cId]; exact .refl⟩
  -- the facts the search library asks for, on searchable blocks
  have closed : ∀ a b, t.Searchable a → Succ (t.pruneSuccessors order n) a b → t.Searchable b :=
    fun a b ha e => ha.edge ((shaped.succ_iff getN ha).mp e).1
  have descends : ∀ a b, t.Searchable a → Succ (t.pruneSuccessors order n) a b →
      t.roundBound + 1 - b.executedBlock.round < t.roundBound + 1 - a.executedBlock.round := by
    intro a b ha e
    obtain ⟨⟨⟨la, getA, hc⟩, getB⟩, -⟩ := (shaped.succ_iff getN ha).mp e
    rw [ha.1] at getA
    cases getA
    have rise := shaped.roundsRise _ _ _ _ ha.1 getB hc
    have bound := round_le_roundBound getB
    omega
  have unique : ∀ a b c, t.Searchable a → t.Searchable b → Succ (t.pruneSuccessors order n) a c →
      Succ (t.pruneSuccessors order n) b c → a = b := fun a b c ha hb ea eb =>
    shaped.blockEdge_unique ha hb ((shaped.succ_iff getN ha).mp ea).1 ((shaped.succ_iff getN hb).mp eb).1
  have distinct : ∀ a cs, t.Searchable a → t.pruneSuccessors order n a = some cs → cs.Nodup := by
    intro a cs ha hcs
    refine nodup_of_mapM_eq_some hcs (fun k k' b hk hk' => ?_)
      (((order.perm a).nodup_iff.mpr (shaped.childrenNodup _ _ ha.1)).filter _)
    rw [← shaped.keyed _ _ hk, ← shaped.keyed _ _ hk']
  have total : ∀ a, t.Searchable a → ∃ cs, t.pruneSuccessors order n a = some cs := by
    intro a ha
    refine exists_mapM_eq_some (fun c hc => ?_)
    exact shaped.liveStored c (ha.2.tail ⟨a, ha.1, (order.perm a).mem_iff.mp (List.mem_filter.mp hc).1⟩)
  obtain ⟨out, hout⟩ := exists_drains total closed descends [croot] (by simpa using goodC)
  have nodup := Drains.nodup closed descends unique distinct _ croot out rfl goodC hout
  have outGood : ∀ lb ∈ out, t.Searchable lb := by
    intro lb hlb
    obtain ⟨x, hx, hxlb⟩ := hout.mem_iff.mp hlb
    rw [List.mem_singleton] at hx
    subst hx
    exact good_of_reach closed goodC hxlb
  have idsNodup : (out.map LinkableBlock.id).Nodup := by
    refine nodup.map_on (fun a ha b hb hab => ?_)
    have getA := (outGood a ha).1
    rw [hab, (outGood b hb).1] at getA
    exact (Option.some.inj getA).symm
  -- each iteration pops one stored block, so the stored blocks are fuel enough
  have fuel : out.length ≤ t.idToBlock.size := by
    have stored : ∀ k ∈ out.map LinkableBlock.id, (t.idToBlock.get k).isSome := by
      intro k hk
      obtain ⟨lb, hlb, rfl⟩ := List.mem_map.mp hk
      exact Option.isSome_iff_exists.mpr ⟨lb, (outGood lb hlb).1⟩
    simpa using KeyMap.length_le_size idsNodup stored
  have found : t.findBlocksToPrune order n =
      some (out.map fun lb => (lb.executedBlock.epoch, lb.id)) := by
    have notAbove : ¬ nlb.executedBlock.round ≤ croot.executedBlock.round := by omega
    simp [findBlocksToPrune, hC, getBlock, getN, commitRoot, getC, notAbove, linkableRoot,
      drain_of_drains hout fuel]
  refine ⟨_, found, by rw [List.map_map]; exact idsNodup, fun y => ?_⟩
  -- membership: reached from the commit root without passing the new root
  have cutReach : ∀ lb, ReflTransGen (Succ (t.pruneSuccessors order n)) croot lb ↔
      ReflTransGen t.BlockEdge croot lb ∧ ¬ ReflTransGen t.BlockEdge nlb lb := by
    intro lb
    have edgeClosed : ∀ a b, t.Searchable a → t.BlockEdge a b → t.Searchable b :=
      fun a b ha e => ha.edge e
    have edgeUnique : ∀ a b c, t.Searchable a → t.Searchable b → t.BlockEdge a c →
        t.BlockEdge b c → a = b := fun _ _ _ ha hb => shaped.blockEdge_unique ha hb
    rw [reach_congr closed (fun a b ha => shaped.succ_iff getN ha) goodC,
      reach_cut_iff edgeClosed edgeUnique (· = nlb) goodC (fun z hz => hz ▸ goodN) ?_]
    · simp
    · intro z hz hzc
      rw [hz] at hzc
      have hnc := ((shaped.reach_blockEdge_iff goodN.1 goodN.2).mp hzc).1
      rw [nId, cId] at hnc
      have := (shaped.round_le hnc getN getC).1
      omega
  simp only [List.map_map, Function.comp_def, List.mem_map]
  constructor
  · rintro ⟨lb, hlb, rfl⟩
    obtain ⟨x, hx, hxlb⟩ := hout.mem_iff.mp hlb
    rw [List.mem_singleton] at hx
    subst hx
    obtain ⟨fromC, notFromN⟩ := (cutReach lb).mp hxlb
    refine ⟨by simpa [cId] using ((shaped.reach_blockEdge_iff goodC.1 goodC.2).mp fromC).1,
      fun hny => notFromN ?_⟩
    exact (shaped.reach_blockEdge_iff goodN.1 goodN.2).mpr
      ⟨by rw [nId]; exact hny, (outGood lb hlb).1⟩
  · rintro ⟨hCy, hny⟩
    obtain ⟨ly, getY⟩ := shaped.stored hCy
    have yId := shaped.keyed _ _ getY
    refine ⟨ly, hout.mem_iff.mpr ⟨croot, List.mem_singleton_self _, ?_⟩, yId⟩
    refine (cutReach ly).mpr ⟨(shaped.reach_blockEdge_iff goodC.1 goodC.2).mpr
      ⟨by rw [cId, yId]; exact hCy, by rw [yId]; exact getY⟩, fun hNy => hny ?_⟩
    simpa [nId, yId] using ((shaped.reach_blockEdge_iff goodN.1 goodN.2).mp hNy).1

end Search

end GravitySdk.BlockStorage.BlockTree
