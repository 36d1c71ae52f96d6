/- The block tree's invariant over whole runs.
   digest: Blocks are named by the hashes of their data, so a block's id fixes
   its parent and its round.  Under the callers' contract (blocks join the live
   tree, certificates certify live blocks, roots move down the live tree and
   commits follow the ordered root and the highest certified block), every
   operation keeps the child links equal to the parent ids, the live tree
   stored, the three roots on it, and the buffer of pruned blocks outside it;
   so no operation panics, and the pruning search returns what it should. -/

import GravitySdk.BlockStorage.Pruning
import GravitySdk.Lib.Transition

set_option autoImplicit false
set_option relaxedAutoImplicit false

namespace GravitySdk.BlockStorage

open GravitySdk.Consensus GravitySdk.Lib GravitySdk.Lib.StackSearch GravitySdk.Lib.Transition
open Relation

/-- Blocks named by their hashes: the block behind each id hashes to that id,
and its parent, when there is one, has a lower round (`verify_well_formed`). -/
structure BlockUniverse where
  blockOf : HashValue → Option Block
  id_eq : ∀ k b, blockOf k = some b → b.id = k
  parent_round_lt : ∀ k b pb, blockOf k = some b → blockOf b.parentId = some pb → pb.round < b.round

namespace BlockUniverse

/-- The universe of finitely many blocks, each named by its id, in which a
block's parent, when it is among them, has a lower round. -/
def ofBlocks (blocks : List Block)
    (rises : ∀ b ∈ blocks, ∀ pb ∈ blocks, pb.id = b.parentId → pb.round < b.round) : BlockUniverse where
  blockOf k := blocks.find? (·.id == k)
  id_eq _ _ h := by
    have found := List.find?_some h
    exact beq_iff_eq.mp found
  parent_round_lt _ b pb hb hpb := by
    have found := List.find?_some hpb
    exact rises b (List.mem_of_find?_eq_some hb) pb (List.mem_of_find?_eq_some hpb) (beq_iff_eq.mp found)

variable (U : BlockUniverse)

/-- `y` is the parent id of the block named `x`. -/
def ParentOf (x y : HashValue) : Prop := ∃ b, U.blockOf x = some b ∧ b.parentId = y

/-- Following parent ids from `x` reaches `r`: `x` descends from `r`, whether
or not the blocks between them are stored anywhere. -/
def Descends (r x : HashValue) : Prop := ReflTransGen U.ParentOf x r

variable {U}

theorem Descends.trans {a b c : HashValue} (hab : U.Descends a b) (hbc : U.Descends b c) :
    U.Descends a c :=
  ReflTransGen.trans hbc hab

theorem Descends.round_le {r x : HashValue} {rb xb : Block} (h : U.Descends r x)
    (getR : U.blockOf r = some rb) (getX : U.blockOf x = some xb) :
    rb.round ≤ xb.round ∧ (r ≠ x → rb.round < xb.round) := by
  induction h using ReflTransGen.head_induction_on generalizing xb with
  | refl =>
      rw [getR] at getX
      cases getX
      exact ⟨Nat.le_refl _, fun h => absurd rfl h⟩
  | @head x y hxy hyr ih =>
      obtain ⟨b, getX', rfl⟩ := hxy
      rw [getX] at getX'
      cases getX'
      -- the parent is named by the universe: it is `r`, or it has a parent itself
      obtain ⟨yb, getY⟩ : ∃ yb, U.blockOf xb.parentId = some yb := by
        rcases ReflTransGen.cases_head hyr with hyr' | ⟨z, ⟨yb, getY, -⟩, -⟩
        · exact ⟨rb, hyr' ▸ getR⟩
        · exact ⟨yb, getY⟩
      have lt := U.parent_round_lt x xb yb getX getY
      have le := (ih getY).1
      exact ⟨by omega, fun _ => by omega⟩

theorem Descends.total {a b x : HashValue} (ha : U.Descends a x) (hb : U.Descends b x) :
    U.Descends a b ∨ U.Descends b a := by
  have unique : Relator.RightUnique U.ParentOf := by
    rintro x y z ⟨b, hb, rfl⟩ ⟨b', hb', rfl⟩
    rw [hb] at hb'
    cases hb'
    rfl
  exact ReflTransGen.total_of_right_unique unique hb ha

end BlockUniverse

namespace BlockTree

/-- The invariant of the block tree.  The live tree is what the commit root
reaches through child links; the pruned buffer holds blocks off it, which no
later block descends from, except that a pruned block may still record the
commit root as its child. -/
structure Consistent (U : BlockUniverse) (t : BlockTree) : Prop where
  keyed : ∀ k lb, t.getLinkableBlock k = some lb → lb.id = k
  hashed : ∀ k lb, t.getLinkableBlock k = some lb → U.blockOf k = some lb.executedBlock.block
  linked : ∀ p c lp lc, t.getLinkableBlock p = some lp → t.getLinkableBlock c = some lc →
    (c ∈ lp.children ↔ lc.executedBlock.parentId = p)
  childrenNodup : ∀ p lp, t.getLinkableBlock p = some lp → lp.children.Nodup
  liveStored : ∀ y, t.Subtree t.commitRootId y → t.blockExists y = true
  orderedLive : t.Subtree t.commitRootId t.orderedRootId
  certifiedLive : t.Subtree t.commitRootId t.highestCertifiedBlockId
  commitCert : ∀ root, t.commitRoot = some root → t.highestCommitCert.commitInfo.round ≤ root.round
  prunedNodup : t.prunedBlockIds.Nodup
  prunedStored : ∀ x ∈ t.prunedBlockIds, t.blockExists x = true
  prunedDead : ∀ x ∈ t.prunedBlockIds, ¬ U.Descends t.commitRootId x
  prunedChildren : ∀ x ∈ t.prunedBlockIds, ∀ c, t.ChildOf x c →
    c = t.commitRootId ∨ ¬ U.Descends t.commitRootId c
  covered : ∀ y, t.blockExists y = true → t.Subtree t.commitRootId y ∨ y ∈ t.prunedBlockIds

section Consistent

variable {U : BlockUniverse} {t : BlockTree}

theorem Consistent.shaped (inv : t.Consistent U) : t.Shaped where
  keyed := inv.keyed
  linked := inv.linked
  childrenNodup := inv.childrenNodup
  liveStored := inv.liveStored
  roundsRise := by
    intro p c lp lc getP getC hc
    have parent := (inv.linked p c lp lc getP getC).mp hc
    have hashC := inv.hashed c lc getC
    have hashP := inv.hashed p lp getP
    rw [← parent] at hashP
    exact U.parent_round_lt c _ _ hashC hashP

theorem Consistent.stored (inv : t.Consistent U) {y : HashValue}
    (hy : t.Subtree t.commitRootId y) : ∃ ly, t.getLinkableBlock y = some ly :=
  inv.shaped.stored hy

theorem Consistent.parentOf (inv : t.Consistent U) {c : HashValue} {lc : LinkableBlock}
    (getC : t.getLinkableBlock c = some lc) : U.ParentOf c lc.executedBlock.parentId :=
  ⟨lc.executedBlock.block, inv.hashed c lc getC, rfl⟩

theorem Consistent.descends_of_subtree (inv : t.Consistent U) {r y : HashValue}
    (hr : t.Subtree t.commitRootId r) (hry : t.Subtree r y) : U.Descends r y := by
  induction hry with
  | refl => exact .refl
  | @tail w y hrw hwy ih =>
      obtain ⟨lw, getW, hmem⟩ := hwy
      obtain ⟨ly, getY⟩ := inv.stored ((hr.trans hrw).tail ⟨lw, getW, hmem⟩)
      have parent := (inv.linked w y lw ly getW getY).mp hmem
      exact ReflTransGen.head (parent ▸ inv.parentOf getY) ih

theorem Consistent.subtree_of_descends (inv : t.Consistent U) {n x : HashValue}
    (hn : t.Subtree t.commitRootId n) (hx : t.Subtree t.commitRootId x) (hnx : U.Descends n x) :
    t.Subtree n x := by
  induction hx with
  | refl =>
      -- the commit root descends from `n` and `n` from it: they are one block
      obtain ⟨lc, getC⟩ := inv.stored (.refl : t.Subtree t.commitRootId t.commitRootId)
      obtain ⟨ln, getN⟩ := inv.stored hn
      have up := inv.descends_of_subtree .refl hn
      have r₁ := hnx.round_le (inv.hashed _ _ getN) (inv.hashed _ _ getC)
      have r₂ := up.round_le (inv.hashed _ _ getC) (inv.hashed _ _ getN)
      by_cases h : n = t.commitRootId
      · exact h ▸ .refl
      · have := r₂.2 (Ne.symm h)
        omega
  | @tail w x hw hwx ih =>
      rcases ReflTransGen.cases_head hnx with rfl | ⟨z, hxz, hzn⟩
      · exact .refl
      · obtain ⟨lw, getW, hmem⟩ := hwx
        obtain ⟨lx, getX⟩ := inv.stored (hw.tail ⟨lw, getW, hmem⟩)
        have parent : lx.executedBlock.block.parentId = w := (inv.linked w x lw lx getW getX).mp hmem
        obtain ⟨b, getB, rfl⟩ := hxz
        rw [inv.hashed x lx getX] at getB
        cases getB
        rw [parent] at hzn
        exact (ih hzn).tail ⟨lw, getW, hmem⟩

theorem Consistent.pruned_not_live (inv : t.Consistent U) {x : HashValue}
    (hx : x ∈ t.prunedBlockIds) (live : t.Subtree t.commitRootId x) : False :=
  inv.prunedDead x hx (inv.descends_of_subtree .refl live)

end Consistent

section Frame

/-! Operations that keep the stored blocks, the commit root, the commit
certificate and the pruned buffer keep the invariant once the ordered root
and the highest certified block stay on the live tree. -/

variable {U : BlockUniverse} {t t' : BlockTree}

theorem childOf_congr (h : t'.idToBlock = t.idToBlock) : t'.ChildOf = t.ChildOf := by
  funext p c
  simp [ChildOf, getLinkableBlock, h]

theorem Consistent.congr (inv : t.Consistent U) (blocks : t'.idToBlock = t.idToBlock)
    (commit : t'.commitRootId = t.commitRootId) (cert : t'.highestCommitCert = t.highestCommitCert)
    (pruned : t'.prunedBlockIds = t.prunedBlockIds)
    (ordered : t.Subtree t.commitRootId t'.orderedRootId)
    (certified : t.Subtree t.commitRootId t'.highestCertifiedBlockId) : t'.Consistent U := by
  have get : t'.getLinkableBlock = t.getLinkableBlock := by
    funext k
    simp [getLinkableBlock, blocks]
  have sub : t'.Subtree = t.Subtree := by
    funext r y
    simp [Subtree, childOf_congr blocks]
  have exists' : t'.blockExists = t.blockExists := by
    funext k
    simp [blockExists, get]
  have root : t'.commitRoot = t.commitRoot := by
    simp [commitRoot, getBlock, get, commit]
  refine ⟨?_, ?_, ?_, ?_, ?_, ?_, ?_, ?_, ?_, ?_, ?_, ?_, ?_⟩ <;>
    simp only [get, sub, exists', root, commit, cert, pruned, childOf_congr blocks]
  exacts [inv.keyed, inv.hashed, inv.linked, inv.childrenNodup, inv.liveStored, ordered, certified,
    inv.commitCert, inv.prunedNodup, inv.prunedStored, inv.prunedDead, inv.prunedChildren,
    inv.covered]

end Frame

section Certificates

variable {U : BlockUniverse} {t : BlockTree}

theorem Consistent.recordQuorumCert (inv : t.Consistent U) (blockId : HashValue) (qc : QuorumCert) :
    (t.recordQuorumCert blockId qc).Consistent U := by
  unfold BlockTree.recordQuorumCert
  split
  · exact inv
  · exact inv.congr rfl rfl rfl rfl inv.orderedLive inv.certifiedLive

theorem Consistent.raiseOrdered (inv : t.Consistent U) (w : WrappedLedgerInfo) :
    ({ t with highestOrderedCert := w } : BlockTree).Consistent U :=
  inv.congr rfl rfl rfl rfl inv.orderedLive inv.certifiedLive

theorem Consistent.certify (inv : t.Consistent U) {block : PipelinedBlock} (qc : QuorumCert)
    (live : t.Subtree t.commitRootId block.id) : (t.certify block qc).Consistent U :=
  inv.congr rfl rfl rfl rfl inv.orderedLive live

theorem Consistent.insertOrderedCert (inv : t.Consistent U) (w : WrappedLedgerInfo) :
    (t.insertOrderedCert w).Consistent U := by
  unfold BlockTree.insertOrderedCert
  split
  · exact inv.raiseOrdered w
  · exact inv

theorem Consistent.insertQuorumCert (inv : t.Consistent U) {qc : QuorumCert}
    (live : t.Subtree t.commitRootId qc.certifiedBlock.id) :
    ∃ t', t.insertQuorumCert qc = some (.ok t') ∧ t'.Consistent U := by
  obtain ⟨lb, getB⟩ := inv.stored live
  obtain ⟨lh, getH⟩ := inv.stored inv.certifiedLive
  have idB : lb.executedBlock.id = qc.certifiedBlock.id := inv.keyed _ _ getB
  have certified := inv.certify qc (idB ▸ live)
  simp only [BlockTree.insertQuorumCert, getBlock, getB, highestCertifiedBlock, getH, Option.map_some]
  -- whether the block raises the highest certified one, then whether its
  -- certificate raises the highest ordered one
  split
  · split
    · exact ⟨_, rfl, (certified.recordQuorumCert _ qc).raiseOrdered _⟩
    · exact ⟨_, rfl, certified.recordQuorumCert _ qc⟩
  · split
    · exact ⟨_, rfl, (inv.recordQuorumCert _ qc).raiseOrdered _⟩
    · exact ⟨_, rfl, inv.recordQuorumCert _ qc⟩

theorem Consistent.updateOrderedRoot (inv : t.Consistent U) {rootId : HashValue}
    (below : t.Subtree t.orderedRootId rootId) :
    ∃ t', t.updateOrderedRoot rootId = some t' ∧ t'.Consistent U := by
  have live := inv.orderedLive.trans below
  exact ⟨{ t with orderedRootId := rootId }, by simp [BlockTree.updateOrderedRoot, inv.liveStored rootId live],
    inv.congr rfl rfl rfl rfl live inv.certifiedLive⟩

end Certificates

section Adopt

/-! A block that is not stored yet joins the tree under a live parent. -/

variable {U : BlockUniverse} {t t' : BlockTree} {b : PipelinedBlock} {lp : LinkableBlock}

theorem Consistent.descends_fresh (inv : t.Consistent U) (hashB : U.blockOf b.id = some b.block)
    (liveP : t.Subtree t.commitRootId b.parentId) : U.Descends t.commitRootId b.id :=
  ReflTransGen.head ⟨b.block, hashB, rfl⟩ (inv.descends_of_subtree .refl liveP)

theorem Consistent.fresh_not_child (inv : t.Consistent U) (hashB : U.blockOf b.id = some b.block)
    (liveP : t.Subtree t.commitRootId b.parentId) (absent : t.getLinkableBlock b.id = none)
    {x : HashValue} {lx : LinkableBlock} (getX : t.getLinkableBlock x = some lx) :
    b.id ∉ lx.children := by
  intro hmem
  have child : t.ChildOf x b.id := ⟨lx, getX, hmem⟩
  rcases inv.covered x (by simp [blockExists, getX]) with live | pruned
  · obtain ⟨lb, getB⟩ := inv.stored (live.tail child)
    rw [absent] at getB
    cases getB
  · rcases inv.prunedChildren x pruned b.id child with isRoot | dead
    · obtain ⟨lc, getC⟩ := inv.stored (.refl : t.Subtree t.commitRootId t.commitRootId)
      rw [← isRoot, absent] at getC
      cases getC
    · exact dead (inv.descends_fresh hashB liveP)

theorem Consistent.fresh_not_parent (inv : t.Consistent U) (hashB : U.blockOf b.id = some b.block)
    (liveP : t.Subtree t.commitRootId b.parentId) (absent : t.getLinkableBlock b.id = none)
    {c : HashValue} {lc : LinkableBlock} (getC : t.getLinkableBlock c = some lc) :
    lc.executedBlock.parentId ≠ b.id := by
  intro parent
  have desc : U.Descends t.commitRootId c :=
    ReflTransGen.head (parent ▸ inv.parentOf getC) (inv.descends_fresh hashB liveP)
  rcases inv.covered c (by simp [blockExists, getC]) with live | pruned
  · rcases ReflTransGen.cases_tail live with isRoot | ⟨w, -, lw, getW, hmem⟩
    · subst isRoot
      obtain ⟨lpp, getP⟩ := inv.stored liveP
      have parent' : lc.executedBlock.block.parentId = b.id := parent
      have below : lpp.executedBlock.block.round < b.block.round :=
        U.parent_round_lt _ _ _ hashB (inv.hashed _ _ getP)
      have above : b.block.round < lc.executedBlock.block.round :=
        U.parent_round_lt _ _ _ (inv.hashed _ _ getC) (parent' ▸ hashB)
      have fromRoot := (inv.shaped.round_le liveP getC getP).1
      simp only [PipelinedBlock.round] at fromRoot
      omega
    · have toW := (inv.linked w c lw lc getW getC).mp hmem
      rw [parent] at toW
      rw [← toW, absent] at getW
      cases getW
  · exact inv.prunedDead c pruned desc

theorem adopt_parent_ne (absent : t.getLinkableBlock b.id = none)
    (getP : t.getLinkableBlock b.parentId = some lp) : b.parentId ≠ b.id := by
  intro h
  rw [h, absent] at getP
  cases getP

section Adopted

variable (adopted : ∀ k, t'.getLinkableBlock k =
  if k = b.id then some (.new b)
  else if k = b.parentId then some { lp with children := lp.children ++ [b.id] }
  else t.getLinkableBlock k)
include adopted

theorem adopt_cases {k : HashValue} {l : LinkableBlock} (h : t'.getLinkableBlock k = some l) :
    (k = b.id ∧ l = .new b) ∨
      (k = b.parentId ∧ k ≠ b.id ∧ l = { lp with children := lp.children ++ [b.id] }) ∨
      (k ≠ b.id ∧ k ≠ b.parentId ∧ t.getLinkableBlock k = some l) := by
  rw [adopted] at h
  split_ifs at h with h₁ h₂
  · exact .inl ⟨h₁, (Option.some.inj h).symm⟩
  · exact .inr (.inl ⟨h₂, h₁, (Option.some.inj h).symm⟩)
  · exact .inr (.inr ⟨h₁, h₂, h⟩)

theorem adopt_blockExists {y : HashValue} (h : t.blockExists y = true) : t'.blockExists y = true := by
  simp only [blockExists, adopted]
  split_ifs <;> simp_all [blockExists]

variable (getP : t.getLinkableBlock b.parentId = some lp)
include getP

theorem adopt_getBlock {k : HashValue} (hk : k ≠ b.id) : t'.getBlock k = t.getBlock k := by
  simp only [getBlock, adopted, if_neg hk]
  split_ifs with hkp
  · subst hkp
    simp [getP]
  · rfl

variable (absent : t.getLinkableBlock b.id = none)
include absent

theorem adopt_childOf {x c : HashValue} :
    t'.ChildOf x c ↔ t.ChildOf x c ∨ (x = b.parentId ∧ c = b.id) := by
  have hp := adopt_parent_ne absent getP
  constructor
  · rintro ⟨l, getX, hc⟩
    rcases adopt_cases adopted getX with ⟨rfl, rfl⟩ | ⟨rfl, -, rfl⟩ | ⟨-, -, getX'⟩
    · simp [LinkableBlock.new] at hc
    · rcases List.mem_append.mp hc with hc | hc
      · exact .inl ⟨lp, getP, hc⟩
      · exact .inr ⟨rfl, List.mem_singleton.mp hc⟩
    · exact .inl ⟨l, getX', hc⟩
  · rintro (⟨l, getX, hc⟩ | ⟨rfl, rfl⟩)
    · have hx : x ≠ b.id := by
        rintro rfl
        rw [absent] at getX
        cases getX
      by_cases hxp : x = b.parentId
      · subst hxp
        rw [getP] at getX
        cases getX
        exact ⟨{ lp with children := lp.children ++ [b.id] }, by simp [adopted, hp],
          List.mem_append_left _ hc⟩
      · exact ⟨l, by simp [adopted, hx, hxp, getX], hc⟩
    · exact ⟨{ lp with children := lp.children ++ [b.id] }, by simp [adopted, hp], by simp⟩

theorem adopt_subtree {r y : HashValue} :
    t'.Subtree r y ↔ t.Subtree r y ∨ (t.Subtree r b.parentId ∧ y = b.id) := by
  have hp := adopt_parent_ne absent getP
  have mono : ∀ {y}, t.Subtree r y → t'.Subtree r y := fun h =>
    ReflTransGen.mono (fun _ _ e => (adopt_childOf adopted getP absent).mpr (.inl e)) _ _ h
  constructor
  · intro h
    induction h with
    | refl => exact .inl .refl
    | @tail w y _ e ih =>
        rcases (adopt_childOf adopted getP absent).mp e with e | ⟨rfl, rfl⟩
        · rcases ih with ih | ⟨-, rfl⟩
          · exact .inl (ih.tail e)
          · obtain ⟨l, getB, -⟩ := e
            rw [absent] at getB
            cases getB
        · rcases ih with ih | ⟨-, hwb⟩
          · exact .inr ⟨ih, rfl⟩
          · exact absurd hwb hp
  · rintro (h | ⟨h, rfl⟩)
    · exact mono h
    · exact (mono h).tail ((adopt_childOf adopted getP absent).mpr (.inr ⟨rfl, rfl⟩))

theorem Consistent.adopt (inv : t.Consistent U) (hashB : U.blockOf b.id = some b.block)
    (liveP : t.Subtree t.commitRootId b.parentId)
    (commit : t'.commitRootId = t.commitRootId) (ordered : t'.orderedRootId = t.orderedRootId)
    (certified : t'.highestCertifiedBlockId = t.highestCertifiedBlockId)
    (cert : t'.highestCommitCert = t.highestCommitCert)
    (pruned : t'.prunedBlockIds = t.prunedBlockIds) : t'.Consistent U := by
  have hp := adopt_parent_ne absent getP
  have notChild : ∀ {x lx}, t.getLinkableBlock x = some lx → b.id ∉ lx.children :=
    inv.fresh_not_child hashB liveP absent
  have notParent : ∀ {c lc}, t.getLinkableBlock c = some lc → lc.executedBlock.parentId ≠ b.id :=
    inv.fresh_not_parent hashB liveP absent
  have subtree := fun {r y} => adopt_subtree adopted getP absent (r := r) (y := y)
  have rootStored : t.commitRootId ≠ b.id := by
    intro h
    obtain ⟨lc, getC⟩ := inv.stored (.refl : t.Subtree t.commitRootId t.commitRootId)
    rw [h, absent] at getC
    cases getC
  refine ⟨?keyed, ?hashed, ?linked, ?nodup, ?live, ?ordered, ?certified, ?commitCert, ?prunedNodup,
    ?prunedStored, ?prunedDead, ?prunedChildren, ?covered⟩
  case keyed =>
    intro k l h
    rcases adopt_cases adopted h with ⟨rfl, rfl⟩ | ⟨rfl, -, rfl⟩ | ⟨-, -, h⟩
    · rfl
    · exact inv.keyed _ lp getP
    · exact inv.keyed _ _ h
  case hashed =>
    intro k l h
    rcases adopt_cases adopted h with ⟨rfl, rfl⟩ | ⟨rfl, -, rfl⟩ | ⟨-, -, h⟩
    · exact hashB
    · exact inv.hashed _ lp getP
    · exact inv.hashed _ _ h
  case linked =>
    -- the new block has no children and only its parent records it
    intro x c lx lc getX getC
    rcases adopt_cases adopted getX with ⟨rfl, rfl⟩ | ⟨rfl, -, rfl⟩ | ⟨hxb, hxp, getX⟩ <;>
      rcases adopt_cases adopted getC with ⟨rfl, rfl⟩ | ⟨rfl, hcb, rfl⟩ | ⟨hcb, hcp, getC⟩
    · simp [LinkableBlock.new, hp]
    · simp [LinkableBlock.new, notParent getP]
    · simp [LinkableBlock.new, notParent getC]
    · simp [LinkableBlock.new]
    · simpa [hp] using inv.linked _ _ _ _ getP getP
    · simpa [hcb] using inv.linked _ _ _ _ getP getC
    · simp [LinkableBlock.new, notChild getX, Ne.symm hxp]
    · exact inv.linked x b.parentId lx lp getX getP
    · exact inv.linked _ _ _ _ getX getC
  case nodup =>
    intro k l h
    rcases adopt_cases adopted h with ⟨rfl, rfl⟩ | ⟨rfl, -, rfl⟩ | ⟨-, -, h⟩
    · exact List.nodup_nil
    · refine List.nodup_append.mpr ⟨inv.childrenNodup _ _ getP, List.nodup_singleton _,
        fun a ha a' ha' e => notChild getP ?_⟩
      rw [List.mem_singleton] at ha'
      exact e.trans ha' ▸ ha
    · exact inv.childrenNodup _ _ h
  case live =>
    intro y hy
    rw [commit] at hy
    rcases subtree.mp hy with hy | ⟨-, rfl⟩
    · exact adopt_blockExists adopted (inv.liveStored y hy)
    · simp [blockExists, adopted]
  case ordered =>
    rw [commit, ordered]
    exact subtree.mpr (.inl inv.orderedLive)
  case certified =>
    rw [commit, certified]
    exact subtree.mpr (.inl inv.certifiedLive)
  case commitCert =>
    intro root h
    rw [cert]
    apply inv.commitCert
    rw [← h, commitRoot, commitRoot, commit]
    exact (adopt_getBlock adopted getP rootStored).symm
  case prunedNodup => exact pruned ▸ inv.prunedNodup
  case prunedStored =>
    intro x hx
    rw [pruned] at hx
    exact adopt_blockExists adopted (inv.prunedStored x hx)
  case prunedDead =>
    rw [pruned, commit]
    exact inv.prunedDead
  case prunedChildren =>
    intro x hx c hc
    rw [pruned] at hx
    rw [commit]
    rcases (adopt_childOf adopted getP absent).mp hc with hc | ⟨rfl, -⟩
    · exact inv.prunedChildren x hx c hc
    · exact (inv.pruned_not_live hx liveP).elim
  case covered =>
    intro y hy
    rw [commit, pruned]
    by_cases hyb : y = b.id
    · subst hyb
      exact .inl (subtree.mpr (.inr ⟨liveP, rfl⟩))
    · have old : t.blockExists y = true := by
        simp only [blockExists, adopted, if_neg hyb] at hy
        split_ifs at hy with hyp
        · subst hyp
          simp [blockExists, getP]
        · exact hy
      rcases inv.covered y old with live | p
      · exact .inl (subtree.mpr (.inl live))
      · exact .inr p

end Adopted

theorem Consistent.insertBlock (inv : t.Consistent U) (genesisBlockId : HashValue)
    (hashB : U.blockOf b.id = some b.block) (liveP : t.Subtree t.commitRootId b.parentId)
    (same : ∀ e, t.getBlock b.id = some e → e.computeResult = b.computeResult) :
    ∃ t' r, t.insertBlock genesisBlockId b = some (t', r) ∧ t'.Consistent U := by
  cases hstored : t.getLinkableBlock b.id with
  | some lb =>
      have hg : t.getBlock b.id = some lb.executedBlock := by simp [getBlock, hstored]
      refine ⟨t.setHead b, .ok lb.executedBlock, ?_, ?_⟩
      · have hg' : (t.setHead b).getBlock b.id = some lb.executedBlock := by
          simpa [setHead_eq, getBlock, getLinkableBlock] using hg
        simp [BlockTree.insertBlock, hg', same _ hg]
      · exact inv.congr (by simp [setHead_eq]) (by simp [setHead_eq]) (by simp [setHead_eq])
          (by simp [setHead_eq]) (by simpa [setHead_eq] using inv.orderedLive)
          (by simpa [setHead_eq] using inv.certifiedLive)
  | none =>
      obtain ⟨lp, getP⟩ := inv.stored liveP
      have notChild := inv.fresh_not_child hashB liveP hstored getP
      have hp := adopt_parent_ne hstored getP
      have stored' : t.idToBlock.get b.id = none := hstored
      -- the tree once the parent records the child, before the child is stored
      let linked : BlockTree := { t.setHead b with
        idToBlock := (t.setHead b).idToBlock.insert b.parentId
          { lp with children := lp.children ++ [b.id] } }
      refine ⟨{ linked with idToBlock := linked.idToBlock.insert b.id (.new b) }, .ok b, ?_, ?_⟩
      · have absent' : (t.setHead b).getBlock b.id = none := by
          simp [setHead_eq, getBlock, getLinkableBlock, stored']
        have parent' : (t.setHead b).getLinkableBlock b.parentId = some lp := by
          simpa [setHead_eq, getLinkableBlock] using getP
        have link : linkToParent genesisBlockId (t.setHead b) b = some (.ok linked) := by
          simp [linkToParent, parent', LinkableBlock.addChild, notChild, linked]
        have fresh : linked.blockExists b.id = false := by
          simp [linked, blockExists, getLinkableBlock, Ne.symm hp, setHead_eq, stored']
        simp [BlockTree.insertBlock, absent', link, fresh]
      · refine inv.adopt (fun k => ?_) getP hstored hashB liveP (by simp [linked, setHead_eq])
          (by simp [linked, setHead_eq]) (by simp [linked, setHead_eq]) (by simp [linked, setHead_eq])
          (by simp [linked, setHead_eq])
        simp [linked, getLinkableBlock, setHead_eq]

end Adopt

section Evict

/-! Blocks removed from the tree take their links with them. -/

variable {t t' : BlockTree} {E : List HashValue}
  (evicted : ∀ k, t'.getLinkableBlock k = if k ∈ E then none else t.getLinkableBlock k)
include evicted

theorem evict_childOf {x c : HashValue} : t'.ChildOf x c ↔ t.ChildOf x c ∧ x ∉ E := by
  simp only [ChildOf, evicted]
  by_cases hx : x ∈ E <;> simp [hx]

theorem evict_subtree {r y : HashValue} (h : t'.Subtree r y) : t.Subtree r y :=
  ReflTransGen.mono (fun _ _ e => ((evict_childOf evicted).mp e).1) _ _ h

theorem subtree_evict {r y : HashValue} (keep : ∀ z, t.Subtree r z → z ∉ E)
    (h : t.Subtree r y) : t'.Subtree r y := by
  induction h with
  | refl => exact .refl
  | @tail w y hw e ih => exact ih.tail ((evict_childOf evicted).mpr ⟨e, keep w hw⟩)

theorem evict_stored {k : HashValue} {l : LinkableBlock} (h : t'.getLinkableBlock k = some l) :
    t.getLinkableBlock k = some l := by
  rw [evicted] at h
  split_ifs at h
  exact h

end Evict

section Checks

/-! Decidable versions of the child links and paths, for checking the callers'
contract on concrete runs. -/

/-- Whether the stored block `p` records the child `c`. -/
def childCheck (t : BlockTree) (p c : HashValue) : Bool :=
  match t.getLinkableBlock p with
  | some lp => decide (c ∈ lp.children)
  | none => false

/-- Whether `r` reaches `y` in at most `fuel` child links, found by following
the stored parent ids up from `y`. -/
def subtreeCheck (t : BlockTree) (r : HashValue) : Nat → HashValue → Bool
  | 0, y => y == r
  | fuel + 1, y =>
      y == r ||
        match t.getBlock y with
        | some b => t.childCheck b.parentId y && t.subtreeCheck r fuel b.parentId
        | none => false

variable {t : BlockTree}

theorem childOf_of_childCheck {p c : HashValue} (h : t.childCheck p c = true) : t.ChildOf p c := by
  unfold childCheck at h
  split at h
  · next lp getP => exact ⟨lp, getP, of_decide_eq_true h⟩
  · cases h

theorem subtree_of_subtreeCheck {r : HashValue} :
    ∀ (fuel : Nat) {y : HashValue}, t.subtreeCheck r fuel y = true → t.Subtree r y
  | 0, y, h => by
      rw [subtreeCheck, beq_iff_eq] at h
      subst h
      exact .refl
  | fuel + 1, y, h => by
      rw [subtreeCheck, Bool.or_eq_true, beq_iff_eq] at h
      rcases h with rfl | h
      · exact .refl
      · split at h
        · rw [Bool.and_eq_true] at h
          exact (subtree_of_subtreeCheck fuel h.2).tail (childOf_of_childCheck h.1)
        · cases h

end Checks

section Commit

variable {U : BlockUniverse} {t : BlockTree} (matchOrderedOnly : BlockInfo → BlockInfo → Bool)
  (order : ChildrenOrder)

/-- What the callers promise of a commit: the committed block is a stored block
of the commit root's subtree, the ordered root and the highest certified block
descend from it, and the commit decision commits it and matches the finality
proof. -/
structure CommitsAlong (t : BlockTree) (n : PipelinedBlock) (finalityProof : WrappedLedgerInfo)
    (commitDecision : LedgerInfoWithSignatures) : Prop where
  stored : t.getBlock n.id = some n
  live : t.Subtree t.commitRootId n.id
  belowOrdered : t.Subtree n.id t.orderedRootId
  belowCertified : t.Subtree n.id t.highestCertifiedBlockId
  merges : matchOrderedOnly finalityProof.commitInfo commitDecision.ledgerInfo.commitInfo = true
  commitsId : commitDecision.ledgerInfo.commitInfo.id = n.id
  commitsRound : commitDecision.ledgerInfo.commitInfo.round = n.round

/-- The promise of a commit checked on a concrete tree, each path searched
within as many links as the tree stores blocks. -/
def commitsAlongCheck (t : BlockTree) (n : PipelinedBlock) (finalityProof : WrappedLedgerInfo)
    (commitDecision : LedgerInfoWithSignatures) : Bool :=
  t.getBlock n.id == some n && t.subtreeCheck t.commitRootId t.idToBlock.size n.id &&
    t.subtreeCheck n.id t.idToBlock.size t.orderedRootId &&
    t.subtreeCheck n.id t.idToBlock.size t.highestCertifiedBlockId &&
    matchOrderedOnly finalityProof.commitInfo commitDecision.ledgerInfo.commitInfo &&
    commitDecision.ledgerInfo.commitInfo.id == n.id && commitDecision.ledgerInfo.commitInfo.round == n.round

theorem CommitsAlong.of_check {n : PipelinedBlock} {finalityProof : WrappedLedgerInfo}
    {commitDecision : LedgerInfoWithSignatures}
    (h : commitsAlongCheck matchOrderedOnly t n finalityProof commitDecision = true) :
    CommitsAlong matchOrderedOnly t n finalityProof commitDecision := by
  simp only [commitsAlongCheck, Bool.and_eq_true, beq_iff_eq] at h
  obtain ⟨⟨⟨⟨⟨⟨stored, live⟩, ordered⟩, certified⟩, merges⟩, commitsId⟩, commitsRound⟩ := h
  exact ⟨stored, subtree_of_subtreeCheck _ live, subtree_of_subtreeCheck _ ordered,
    subtree_of_subtreeCheck _ certified, merges, commitsId, commitsRound⟩

theorem commitCallback_stale {blocksToCommit : List PipelinedBlock} {n root : PipelinedBlock}
    {finalityProof : WrappedLedgerInfo} {commitDecision : LedgerInfoWithSignatures}
    (last : blocksToCommit.getLast? = some n) (hroot : t.commitRoot = some root)
    (stale : n.round ≤ root.round) :
    t.commitCallback matchOrderedOnly order blocksToCommit finalityProof commitDecision = some t := by
  simp [commitCallback, last, hroot, stale]

theorem updateHighestCommitCert_raises {s : BlockTree} {w : WrappedLedgerInfo} {blk : PipelinedBlock}
    (higher : s.highestCommitCert.commitInfo.round < w.commitInfo.round)
    (getB : s.getBlock w.commitInfo.id = some blk) :
    ∃ s', s.updateHighestCommitCert w = some s' ∧ s'.idToBlock = s.idToBlock ∧
      s'.commitRootId = w.commitInfo.id ∧ s'.orderedRootId = s.orderedRootId ∧
      s'.highestCertifiedBlockId = s.highestCertifiedBlockId ∧ s'.highestCommitCert = w ∧
      s'.prunedBlockIds = s.prunedBlockIds := by
  have getB' : ({ s with highestCommitCert := w } : BlockTree).getBlock w.commitInfo.id = some blk := getB
  simp only [updateHighestCommitCert, if_pos higher, updateCommitAndFinalizedRoot, getB']
  exact ⟨_, rfl, rfl, rfl, rfl, rfl, rfl, rfl⟩

theorem commitCallback_spec {blocksToCommit : List PipelinedBlock} {n root : PipelinedBlock}
    {finalityProof : WrappedLedgerInfo} {commitDecision : LedgerInfoWithSignatures} {P : List (Nat × HashValue)}
    (last : blocksToCommit.getLast? = some n)
    (along : CommitsAlong matchOrderedOnly t n finalityProof commitDecision)
    (hroot : t.commitRoot = some root) (fresh : root.round < n.round)
    (certBelow : t.highestCommitCert.commitInfo.round ≤ root.round)
    (hfind : t.findBlocksToPrune order n.id = some P)
    (keepN : n.id ∉ (t.queuedPruned P).take (t.overflow P)) :
    ∃ t₂, t.commitCallback matchOrderedOnly order blocksToCommit finalityProof commitDecision = some t₂ ∧
      (∀ k, t₂.getLinkableBlock k =
        if k ∈ (t.queuedPruned P).take (t.overflow P) then none else t.getLinkableBlock k) ∧
      t₂.commitRootId = n.id ∧ t₂.orderedRootId = t.orderedRootId ∧
      t₂.highestCertifiedBlockId = t.highestCertifiedBlockId ∧
      t₂.highestCommitCert = ⟨finalityProof.voteData, commitDecision⟩ ∧
      t₂.prunedBlockIds = (t.queuedPruned P).drop (t.overflow P) := by
  -- the tree after the batch and the overflow
  set t₁ := t.processPrunedBlocks P with ht₁
  have get₁ : ∀ k, t₁.getLinkableBlock k =
      if k ∈ (t.queuedPruned P).take (t.overflow P) then none else t.getLinkableBlock k := by
    intro k
    rw [ht₁, processPrunedBlocks_eq, foldl_removeBlock_getLinkableBlock]
    rfl
  have keeps : ∀ {β : Type} (f : BlockTree → β), (∀ s x, f (s.removeBlock x) = f s) →
      (∀ l, f { t with prunedBlockIds := l } = f t) → f t₁ = f t := by
    intro β f hf hp
    rw [ht₁, processPrunedBlocks_eq, foldl_removeBlock_preserves f hf, hp]
  have pruned₁ : t₁.prunedBlockIds = (t.queuedPruned P).drop (t.overflow P) := by
    rw [ht₁, processPrunedBlocks_eq, foldl_removeBlock_preserves BlockTree.prunedBlockIds (fun _ _ => rfl)]
  have getN₁ : t₁.getBlock n.id = some n := by
    have := along.stored
    simp only [getBlock, get₁, if_neg keepN] at this ⊢
    exact this
  -- the commit certificate is above the old one, so the root moves to `n`
  let proof : WrappedLedgerInfo := ⟨finalityProof.voteData, commitDecision⟩
  have higher : t₁.highestCommitCert.commitInfo.round < proof.commitInfo.round := by
    rw [keeps BlockTree.highestCommitCert (fun _ _ => rfl) (fun _ => rfl)]
    change t.highestCommitCert.commitInfo.round < commitDecision.ledgerInfo.commitInfo.round
    rw [along.commitsRound]
    omega
  have getN₁' : t₁.getBlock proof.commitInfo.id = some n := by
    change t₁.getBlock commitDecision.ledgerInfo.commitInfo.id = some n
    rw [along.commitsId]
    exact getN₁
  obtain ⟨t₂, updated, blocks₂, commit₂, ordered₂, certified₂, cert₂, pruned₂⟩ :=
    updateHighestCommitCert_raises higher getN₁'
  have ran : t.commitCallback matchOrderedOnly order blocksToCommit finalityProof commitDecision = some t₂ := by
    have merged : WrappedLedgerInfo.createMergedWithExecutedState matchOrderedOnly finalityProof
        commitDecision = .ok proof := by
      simp [WrappedLedgerInfo.createMergedWithExecutedState, along.merges, proof]
    have notStale : ¬ n.round ≤ root.round := by omega
    simp only [commitCallback, last, hroot, if_neg notStale, merged, hfind]
    exact updated
  refine ⟨t₂, ran, fun k => ?_, commit₂.trans along.commitsId, ?_, ?_, cert₂, pruned₂.trans pruned₁⟩
  · rw [← get₁ k]
    simp [getLinkableBlock, blocks₂]
  · rw [ordered₂, keeps BlockTree.orderedRootId (fun _ _ => rfl) (fun _ => rfl)]
  · rw [certified₂, keeps BlockTree.highestCertifiedBlockId (fun _ _ => rfl) (fun _ => rfl)]

theorem Consistent.commit (inv : t.Consistent U) {blocksToCommit : List PipelinedBlock}
    {n root : PipelinedBlock} {finalityProof : WrappedLedgerInfo}
    {commitDecision : LedgerInfoWithSignatures} (last : blocksToCommit.getLast? = some n)
    (along : CommitsAlong matchOrderedOnly t n finalityProof commitDecision)
    (hroot : t.commitRoot = some root) (fresh : root.round < n.round) :
    ∃ t', t.commitCallback matchOrderedOnly order blocksToCommit finalityProof commitDecision = some t' ∧
      t'.Consistent U := by
  obtain ⟨P, hfind, nodupP, memP⟩ := inv.shaped.findBlocksToPrune_spec order along.live
  -- the buffer with the batch, and what overflows it
  set Q := t.queuedPruned P with hQ
  set E := Q.take (t.overflow P) with hE
  have nodupQ : Q.Nodup := by
    refine List.nodup_append.mpr ⟨inv.prunedNodup, nodupP, fun a ha a' ha' e => ?_⟩
    subst e
    exact inv.pruned_not_live ha ((memP a).mp ha').1
  have keepLive : ∀ z, t.Subtree n.id z → z ∉ Q := by
    intro z hz hzQ
    rcases List.mem_append.mp hzQ with hzF | hzP
    · exact inv.pruned_not_live hzF (along.live.trans hz)
    · exact ((memP z).mp hzP).2 hz
  have notE : ∀ z, z ∉ Q → z ∉ E := fun z hz hzE => hz (List.mem_of_mem_take hzE)
  have dropped : ∀ x ∈ Q.drop (t.overflow P), x ∉ E := by
    intro x hx hxE
    have split := List.take_append_drop (t.overflow P) Q
    rw [← split] at nodupQ
    exact (List.nodup_append.mp nodupQ).2.2 x hxE x hx rfl
  have kept : ∀ x ∈ Q, x ∉ E → x ∈ Q.drop (t.overflow P) := by
    intro x hx hxE
    rw [← List.take_append_drop (t.overflow P) Q] at hx
    rcases List.mem_append.mp hx with h | h
    · exact absurd h hxE
    · exact h
  obtain ⟨t₂, ran, get₂, root₂, ordered₂, certified₂, cert₂, pruned₂⟩ :=
    commitCallback_spec matchOrderedOnly order last along hroot fresh (inv.commitCert root hroot) hfind
      (notE _ (keepLive _ .refl))
  replace get₂ : ∀ k, t₂.getLinkableBlock k = if k ∈ E then none else t.getLinkableBlock k := get₂
  replace pruned₂ : t₂.prunedBlockIds = Q.drop (t.overflow P) := pruned₂
  refine ⟨t₂, ran, ?_⟩
  have descN : U.Descends t.commitRootId n.id := inv.descends_of_subtree .refl along.live
  have storedQ : ∀ x ∈ Q, t.blockExists x = true := by
    intro x hx
    rcases List.mem_append.mp hx with hx | hx
    · exact inv.prunedStored x hx
    · exact inv.liveStored x ((memP x).mp hx).1
  -- nothing queued descends from the new commit root
  have deadQ : ∀ x ∈ Q, ¬ U.Descends n.id x := by
    intro x hx hnx
    rcases List.mem_append.mp hx with hx | hx
    · exact inv.prunedDead x hx (descN.trans hnx)
    · obtain ⟨live, notBelow⟩ := (memP x).mp hx
      exact notBelow (inv.subtree_of_descends along.live live hnx)
  have exists₂ : ∀ y, t.blockExists y = true → y ∉ E → t₂.blockExists y = true := by
    intro y hy hyE
    simpa [blockExists, get₂, hyE] using hy
  -- the old commit root does not descend from the new one: its round is lower
  have rootNotBelow : ¬ U.Descends n.id t.commitRootId := by
    intro h
    obtain ⟨lc, getC⟩ := inv.stored (.refl : t.Subtree t.commitRootId t.commitRootId)
    obtain ⟨ln, getN⟩ := inv.stored along.live
    have rounds := (h.round_le (inv.hashed _ _ getN) (inv.hashed _ _ getC)).1
    have hr : root = lc.executedBlock := by
      simpa [commitRoot, getBlock, getC] using hroot.symm
    have hn : n = ln.executedBlock := by
      simpa [getBlock, getN] using along.stored.symm
    subst hr hn
    simp only [PipelinedBlock.round] at fresh
    omega
  refine ⟨?keyed, ?hashed, ?linked, ?nodup, ?live, ?ordered, ?certified, ?commitCert, ?prunedNodup,
    ?prunedStored, ?prunedDead, ?prunedChildren, ?covered⟩
  case keyed => exact fun k l h => inv.keyed k l (evict_stored get₂ h)
  case hashed => exact fun k l h => inv.hashed k l (evict_stored get₂ h)
  case linked =>
    exact fun p c lp lc hp hc => inv.linked p c lp lc (evict_stored get₂ hp) (evict_stored get₂ hc)
  case nodup => exact fun p lp h => inv.childrenNodup p lp (evict_stored get₂ h)
  case live =>
    intro y hy
    rw [root₂] at hy
    have hy' := evict_subtree get₂ hy
    exact exists₂ y (inv.liveStored y (along.live.trans hy')) (notE y (keepLive y hy'))
  case ordered =>
    rw [root₂, ordered₂]
    exact subtree_evict get₂ (fun z hz => notE z (keepLive z hz)) along.belowOrdered
  case certified =>
    rw [root₂, certified₂]
    exact subtree_evict get₂ (fun z hz => notE z (keepLive z hz)) along.belowCertified
  case commitCert =>
    intro root' h
    have getN₂ : t₂.getBlock n.id = some n := by
      simpa [getBlock, get₂, notE _ (keepLive _ .refl)] using along.stored
    rw [commitRoot, root₂, getN₂] at h
    cases h
    rw [cert₂]
    exact Nat.le_of_eq along.commitsRound
  case prunedNodup =>
    rw [pruned₂]
    exact nodupQ.sublist (List.drop_sublist _ _)
  case prunedStored =>
    intro x hx
    rw [pruned₂] at hx
    exact exists₂ x (storedQ x (List.mem_of_mem_drop hx)) (dropped x hx)
  case prunedDead =>
    intro x hx
    rw [pruned₂] at hx
    rw [root₂]
    exact deadQ x (List.mem_of_mem_drop hx)
  case prunedChildren =>
    intro x hx c hc
    rw [pruned₂] at hx
    rw [root₂]
    have hc' := ((evict_childOf get₂).mp hc).1
    rcases List.mem_append.mp (List.mem_of_mem_drop hx) with hxF | hxP
    · rcases inv.prunedChildren x hxF c hc' with rfl | dead
      · exact .inr rootNotBelow
      · exact .inr fun h => dead (descN.trans h)
    · -- a pruned block of the old subtree has the new root as its only live child
      obtain ⟨liveX, notBelowX⟩ := (memP x).mp hxP
      have liveC := liveX.tail hc'
      by_cases below : t.Subtree n.id c
      · rcases ReflTransGen.cases_tail below with rfl | ⟨w, hw, hwc⟩
        · exact .inl rfl
        · obtain ⟨lw, getW, hmemW⟩ := hwc
          obtain ⟨lx, getX, hmemX⟩ := hc'
          obtain ⟨lc, getC⟩ := inv.stored liveC
          have pw := (inv.linked _ _ _ _ getW getC).mp hmemW
          have px := (inv.linked _ _ _ _ getX getC).mp hmemX
          exact absurd (pw.symm.trans px ▸ hw) notBelowX
      · exact .inr fun h => below (inv.subtree_of_descends along.live liveC h)
  case covered =>
    intro y hy
    rw [root₂, pruned₂]
    have getY := hy
    simp only [blockExists, get₂] at getY
    split_ifs at getY with hyE
    · simp at getY
    · have old : t.blockExists y = true := getY
      rcases inv.covered y old with live | hyF
      · by_cases below : t.Subtree n.id y
        · exact .inl (subtree_evict get₂ (fun z hz => notE z (keepLive z hz)) below)
        · exact .inr (kept y (List.mem_append_right _ ((memP y).mpr ⟨live, below⟩)) hyE)
      · exact .inr (kept y (List.mem_append_left _ hyF) hyE)

end Commit

section Runs

variable {U : BlockUniverse} (matchOrderedOnly : BlockInfo → BlockInfo → Bool) (order : ChildrenOrder)
  (genesisBlockId : HashValue)

/-- The callers' contract on each operation.  Blocks are inserted as the
universe names them, under a live parent; certificates certify live blocks; the
ordered root moves down from where it is; a commit is either stale or commits
along the live tree; and `process_pruned_blocks` runs only inside the commit
callback. -/
def Allowed (U : BlockUniverse) (t : BlockTree) : Call → Prop
  | .insertBlock block =>
      U.blockOf block.id = some block.block ∧ t.Subtree t.commitRootId block.parentId ∧
        ∀ e, t.getBlock block.id = some e → e.computeResult = block.computeResult
  | .insertQuorumCert qc => t.Subtree t.commitRootId qc.certifiedBlock.id
  | .insertOrderedCert _ => True
  | .updateOrderedRoot rootId => t.Subtree t.orderedRootId rootId
  | .commitCallback blocksToCommit finalityProof commitDecision =>
      ∃ n, blocksToCommit.getLast? = some n ∧
        ((∃ root, t.commitRoot = some root ∧ n.round ≤ root.round) ∨
          CommitsAlong matchOrderedOnly t n finalityProof commitDecision)
  | .processPrunedBlocks _ => False

/-- The contract checked on a concrete tree. -/
def allowedCheck (U : BlockUniverse) (t : BlockTree) : Call → Bool
  | .insertBlock block =>
      U.blockOf block.id == some block.block &&
        t.subtreeCheck t.commitRootId t.idToBlock.size block.parentId &&
        match t.getBlock block.id with
        | some e => e.computeResult == block.computeResult
        | none => true
  | .insertQuorumCert qc => t.subtreeCheck t.commitRootId t.idToBlock.size qc.certifiedBlock.id
  | .insertOrderedCert _ => true
  | .updateOrderedRoot rootId => t.subtreeCheck t.orderedRootId t.idToBlock.size rootId
  | .commitCallback blocksToCommit finalityProof commitDecision =>
      match blocksToCommit.getLast?, t.commitRoot with
      | some n, some root =>
          decide (n.round ≤ root.round) || commitsAlongCheck matchOrderedOnly t n finalityProof commitDecision
      | some n, none => commitsAlongCheck matchOrderedOnly t n finalityProof commitDecision
      | none, _ => false
  | .processPrunedBlocks _ => false

theorem allowed_of_allowedCheck {t : BlockTree} {call : Call}
    (h : allowedCheck matchOrderedOnly U t call = true) : Allowed matchOrderedOnly U t call := by
  cases call with
  | insertBlock block =>
      simp only [allowedCheck, Bool.and_eq_true, beq_iff_eq] at h
      obtain ⟨⟨hashB, live⟩, same⟩ := h
      refine ⟨hashB, subtree_of_subtreeCheck _ live, fun e getE => ?_⟩
      simpa [getE] using same
  | insertQuorumCert qc => exact subtree_of_subtreeCheck _ h
  | insertOrderedCert _ => trivial
  | updateOrderedRoot rootId => exact subtree_of_subtreeCheck _ h
  | commitCallback blocksToCommit finalityProof commitDecision =>
      simp only [allowedCheck] at h
      split at h
      · next n root last hroot =>
          rw [Bool.or_eq_true] at h
          exact ⟨n, last, h.imp (fun stale => ⟨root, hroot, of_decide_eq_true stale⟩)
            (CommitsAlong.of_check matchOrderedOnly)⟩
      · next n last _ => exact ⟨n, last, .inr (CommitsAlong.of_check matchOrderedOnly h)⟩
      · cases h
  | processPrunedBlocks _ => cases h

theorem Consistent.step {t : BlockTree} (inv : t.Consistent U) {call : Call}
    (allowed : Allowed matchOrderedOnly U t call) :
    ∃ t' r, t.step matchOrderedOnly order genesisBlockId call = some (t', r) ∧ t'.Consistent U := by
  cases call with
  | insertBlock block =>
      obtain ⟨hashB, liveP, same⟩ := allowed
      obtain ⟨t', r, h, inv'⟩ := inv.insertBlock genesisBlockId hashB liveP same
      cases r with
      | ok b => exact ⟨t', .block b, by simp [BlockTree.step, h], inv'⟩
      | error e => exact ⟨t', .error e, by simp [BlockTree.step, h], inv'⟩
  | insertQuorumCert qc =>
      obtain ⟨t', h, inv'⟩ := inv.insertQuorumCert allowed
      exact ⟨t', .unit, by simp [BlockTree.step, h], inv'⟩
  | insertOrderedCert orderedCert =>
      exact ⟨_, .unit, rfl, inv.insertOrderedCert orderedCert⟩
  | updateOrderedRoot rootId =>
      obtain ⟨t', h, inv'⟩ := inv.updateOrderedRoot allowed
      exact ⟨t', .unit, by simp [BlockTree.step, h], inv'⟩
  | commitCallback blocksToCommit finalityProof commitDecision =>
      obtain ⟨n, last, stale | along⟩ := allowed
      · obtain ⟨root, hroot, le⟩ := stale
        exact ⟨t, .unit, by simp [BlockTree.step, commitCallback_stale matchOrderedOnly order last hroot le],
          inv⟩
      · obtain ⟨lc, getC⟩ := inv.stored (.refl : t.Subtree t.commitRootId t.commitRootId)
        have hroot : t.commitRoot = some lc.executedBlock := by simp [commitRoot, getBlock, getC]
        by_cases le : n.round ≤ lc.executedBlock.round
        · exact ⟨t, .unit, by simp [BlockTree.step, commitCallback_stale matchOrderedOnly order last hroot le],
            inv⟩
        · obtain ⟨t', h, inv'⟩ := inv.commit matchOrderedOnly order last along hroot (by omega)
          exact ⟨t', .unit, by simp [BlockTree.step, h], inv'⟩
  | processPrunedBlocks _ => exact allowed.elim

theorem Consistent.new {root : PipelinedBlock} {rootQuorumCert : QuorumCert}
    {rootOrderedCert rootCommitCert : WrappedLedgerInfo} {maxPrunedBlocksInMem : Nat} {t : BlockTree}
    (init : BlockTree.new root rootQuorumCert rootOrderedCert rootCommitCert maxPrunedBlocksInMem = some t)
    (hashRoot : U.blockOf root.id = some root.block)
    (rootCommit : rootCommitCert.commitInfo.round ≤ root.round) : t.Consistent U := by
  unfold BlockTree.new at init
  split at init
  · have built := (Option.some.inj init).symm
    -- one stored block without children: the live tree is the root alone
    have get : ∀ k, t.getLinkableBlock k = if k = root.id then some (.new root) else none := by
      intro k
      simp [built, getLinkableBlock]
    have noChild : ∀ x c, ¬ t.ChildOf x c := by
      rintro x c ⟨l, getX, hc⟩
      rw [get] at getX
      split_ifs at getX
      cases getX
      simp [LinkableBlock.new] at hc
    have only : ∀ y, t.Subtree root.id y → y = root.id := by
      intro y hy
      rcases ReflTransGen.cases_tail hy with rfl | ⟨w, -, e⟩
      · rfl
      · exact (noChild _ _ e).elim
    subst built
    refine ⟨?_, ?_, ?_, ?_, ?_, .refl, .refl, ?_, List.nodup_nil, ?_, ?_, ?_, ?_⟩
    · intro k l h
      rw [get] at h
      split_ifs at h with hk
      cases h
      exact hk.symm
    · intro k l h
      rw [get] at h
      split_ifs at h with hk
      cases h
      rw [hk]
      exact hashRoot
    · intro p c lp lc hp hc
      rw [get] at hp hc
      split_ifs at hp hc with h₁ h₂
      cases hp
      cases hc
      simp only [LinkableBlock.new, List.not_mem_nil, false_iff]
      intro hself
      -- a root that were its own parent would be below its own round
      have loop : U.blockOf root.block.parentId = some root.block := by
        have self : root.block.parentId = root.id := hself.trans h₁
        rw [self]
        exact hashRoot
      have := U.parent_round_lt _ _ _ hashRoot loop
      omega
    · intro p lp h
      rw [get] at h
      split_ifs at h
      cases h
      exact List.nodup_nil
    · intro y hy
      rw [only y hy]
      simp [blockExists, get]
    · intro r h
      simp [commitRoot, getBlock, get] at h
      subst h
      exact rootCommit
    · simp
    · simp
    · simp
    · intro y hy
      left
      simp only [blockExists, get] at hy
      split_ifs at hy with hyr
      · rw [hyr]
        exact .refl
      · simp at hy
  · cases init

/-- What the block tree guarantees in every state its callers can reach. -/
structure StaysConsistent (U : BlockUniverse) (t : BlockTree) : Prop where
  linked : ∀ p c lp lc, t.getLinkableBlock p = some lp → t.getLinkableBlock c = some lc →
    (c ∈ lp.children ↔ lc.executedBlock.parentId = p)
  liveStored : ∀ y, t.Subtree t.commitRootId y → t.blockExists y = true
  rootsStored : t.commitRoot.isSome ∧ t.orderedRoot.isSome ∧ t.highestCertifiedBlock.isSome
  noPanic : ∀ call, Allowed matchOrderedOnly U t call →
    (t.step matchOrderedOnly order genesisBlockId call).isSome
  staleCommit : ∀ blocksToCommit finalityProof commitDecision n root,
    blocksToCommit.getLast? = some n → t.commitRoot = some root → n.round ≤ root.round →
      t.commitCallback matchOrderedOnly order blocksToCommit finalityProof commitDecision = some t
  pruneSpec : ∀ n, t.Subtree t.commitRootId n →
    ∃ pruned, t.findBlocksToPrune order n = some pruned ∧ (pruned.map Prod.snd).Nodup ∧
      ∀ y, y ∈ pruned.map Prod.snd ↔ t.Subtree t.commitRootId y ∧ ¬ t.Subtree n y

theorem Consistent.staysConsistent {t : BlockTree} (inv : t.Consistent U) :
    StaysConsistent matchOrderedOnly order genesisBlockId U t := by
  have stored : ∀ y, t.Subtree t.commitRootId y → (t.getBlock y).isSome := by
    intro y hy
    obtain ⟨ly, getY⟩ := inv.stored hy
    simp [getBlock, getY]
  refine ⟨inv.linked, inv.liveStored, ⟨stored _ .refl, stored _ inv.orderedLive,
    stored _ inv.certifiedLive⟩, ?_, ?_, fun n hn => inv.shaped.findBlocksToPrune_spec order hn⟩
  · intro call allowed
    obtain ⟨t', r, h, -⟩ := inv.step matchOrderedOnly order genesisBlockId allowed
    simp [h]
  · intro blocksToCommit finalityProof commitDecision n root last hroot stale
    exact commitCallback_stale matchOrderedOnly order last hroot stale

/-- Over every run from a tree built by `BlockTree::new` in which the callers
keep their contract, the tree keeps its child links equal to the parent ids,
its live tree stored and its three roots on it, no operation panics, stale
commits change nothing, and pruning removes exactly what lies off the new
root's subtree. -/
theorem block_tree_stays_consistent (U : BlockUniverse) (matchOrderedOnly : BlockInfo → BlockInfo → Bool)
    (order : ChildrenOrder) (genesisBlockId : HashValue) {root : PipelinedBlock} {rootQuorumCert : QuorumCert}
    {rootOrderedCert rootCommitCert : WrappedLedgerInfo} {maxPrunedBlocksInMem : Nat} {t₀ : BlockTree}
    (init : BlockTree.new root rootQuorumCert rootOrderedCert rootCommitCert maxPrunedBlocksInMem = some t₀)
    (hashRoot : U.blockOf root.id = some root.block)
    (rootCommit : rootCommitCert.commitInfo.round ≤ root.round)
    {evs : List (Call × Reply)} {t : BlockTree}
    (run : Trace (BlockTree.step matchOrderedOnly order genesisBlockId) (Allowed matchOrderedOnly U) t₀ evs t) :
    StaysConsistent matchOrderedOnly order genesisBlockId U t := by
  have inv : t.Consistent U := by
    refine Trace.invariant (fun s _ => s.Consistent U) (Consistent.new init hashRoot rootCommit) ?_ run
    intro s _ call r s' invS allowed hstep
    obtain ⟨s'', r', h, inv'⟩ := invS.step matchOrderedOnly order genesisBlockId allowed
    rw [h] at hstep
    cases hstep
    exact inv'
  exact inv.staysConsistent matchOrderedOnly order genesisBlockId

theorem block_tree_stays_consistent_after_fork_and_commit :
    let info : HashValue → Nat → BlockInfo := fun id round => { BlockInfo.empty with id := id, round := round }
    let qcOn : HashValue → Nat → QuorumCert := fun id round =>
      ⟨⟨info id round, info id round⟩, ⟨⟨info id round, 0⟩, []⟩⟩
    let block : HashValue → Nat → HashValue → PipelinedBlock := fun id round parent =>
      ⟨⟨id, ⟨0, round, 0, qcOn parent 0, none⟩⟩, false, 0, none⟩
    let cert : HashValue → Nat → WrappedLedgerInfo := fun id round =>
      ⟨⟨info id round, info id round⟩, ⟨⟨info id round, 0⟩, []⟩⟩
    let blocks := [block 1 0 0, block 2 1 1, block 3 2 2, block 4 2 1, block 5 3 3]
    let U : BlockUniverse := .ofBlocks (blocks.map PipelinedBlock.block) (by decide)
    -- a fork off the root, a certificate and the ordered root on block 3, the
    -- commit of block 3 that prunes the root, block 2 and the fork, and a
    -- block on top of the new commit root
    let calls : List Call :=
      [.insertBlock (block 2 1 1), .insertBlock (block 3 2 2), .insertBlock (block 4 2 1),
        .insertQuorumCert (qcOn 3 2), .updateOrderedRoot 3,
        .commitCallback [block 2 1 1, block 3 2 2] (cert 3 2) (cert 3 2).signedLedgerInfo,
        .insertBlock (block 5 3 3)]
    let replies : List Reply :=
      [.block (block 2 1 1), .block (block 3 2 2), .block (block 4 2 1), .unit, .unit, .unit,
        .block (block 5 3 3)]
    ∃ t, ((BlockTree.new (block 1 0 0) (qcOn 1 0) (cert 1 0) (cert 1 0) 1).bind fun t₀ =>
        runChecked (BlockTree.step (fun _ _ => true) .insertion 0) (allowedCheck (fun _ _ => true) U)
          t₀ calls) = some (t, replies) ∧
      t.commitRootId = 3 ∧ StaysConsistent (fun _ _ => true) .insertion 0 U t := by
  intro info qcOn block cert blocks U calls replies
  have shape : ((BlockTree.new (block 1 0 0) (qcOn 1 0) (cert 1 0) (cert 1 0) 1).bind fun t₀ =>
      (runChecked (BlockTree.step (fun _ _ => true) .insertion 0) (allowedCheck (fun _ _ => true) U)
        t₀ calls).map fun p => (p.1.commitRootId, p.2)) = some (3, replies) := by
    decide +kernel
  obtain ⟨t₀, init, found⟩ := Option.bind_eq_some_iff.mp shape
  obtain ⟨⟨t, rs⟩, ran, same⟩ := Option.map_eq_some_iff.mp found
  obtain ⟨root, rfl⟩ := Prod.mk.inj same
  have run := Trace.of_runChecked (fun s c _ ok => allowed_of_allowedCheck (fun _ _ => true) ok) ran
  exact ⟨t, by rw [init]; exact ran, root,
    block_tree_stays_consistent U _ .insertion 0 init rfl (Nat.le_refl _) run⟩

/-- The contract without the amendments does not keep the roots stored:
committing a child of the root before ordering it, with no room kept for
pruned blocks, removes the root, which is still the ordered root and the
highest certified block.  And a pruning request for a block that is not in the
tree returns nothing, although the commit root's subtree is not empty. -/
theorem block_tree_evicts_ordered_root :
    let info : HashValue → Nat → BlockInfo := fun id round => { BlockInfo.empty with id := id, round := round }
    let qcOn : HashValue → QuorumCert := fun id => ⟨⟨info id 0, info id 0⟩, ⟨⟨info id 0, 0⟩, []⟩⟩
    let block : HashValue → Nat → HashValue → PipelinedBlock := fun id round parent =>
      ⟨⟨id, ⟨0, round, 0, qcOn parent, none⟩⟩, false, 0, none⟩
    let cert : HashValue → Nat → WrappedLedgerInfo := fun id round =>
      ⟨⟨info id round, info id round⟩, ⟨⟨info id round, 0⟩, []⟩⟩
    ((BlockTree.new (block 1 0 0) (qcOn 1) (cert 1 0) (cert 1 0) 0).bind fun t =>
      (run (BlockTree.step (fun _ _ => true) .insertion 0) t
        [.insertBlock (block 2 1 1),
          .commitCallback [block 2 1 1] (cert 2 1) (cert 2 1).signedLedgerInfo]).map fun p =>
        (p.1.commitRootId, p.1.orderedRoot, p.1.highestCertifiedBlock)) = some (2, none, none) ∧
    ((BlockTree.new (block 1 0 0) (qcOn 1) (cert 1 0) (cert 1 0) 0).map fun t =>
      (t.findBlocksToPrune .insertion 7, t.blockExists 7, t.commitRootId)) = some (some [], false, 1) := by
  decide +kernel

end Runs


end BlockTree

end GravitySdk.BlockStorage
