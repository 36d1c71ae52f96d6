/- Safety rules as a labelled transition system, and what each call does to
   the persisted SafetyData.
   digest: Every entry point of TSafetyRules is a call; a read only fills the
   cache, and each call leaves the store as it was or writes one SafetyData
   computed from the one it read. -/

import GravitySdk.Consensus.SafetyRules
import GravitySdk.Lib.Except

set_option autoImplicit false
set_option relaxedAutoImplicit false

namespace GravitySdk.Consensus

open GravitySdk.Lib

/-- The entry points of `TSafetyRules` that sign or update state, with their
arguments and the behaviour of the storage writes they make. -/
inductive Call where
  | initializeEpoch (proof : EpochChangeProof) (keyFound : Bool) (waypointWrite safetyDataWrite : WriteOutcome)
  | signProposal (blockData : BlockData)
  | signTimeoutWithQc (timeout : TwoChainTimeout) (timeoutCert : Option TwoChainTimeoutCertificate)
      (write : WriteOutcome)
  | constructAndSignVoteTwoChain (voteProposal : VoteProposal)
      (timeoutCert : Option TwoChainTimeoutCertificate) (write : WriteOutcome)
  | constructAndSignOrderVote (orderVoteProposal : OrderVoteProposal) (write : WriteOutcome)
  | signCommitVote (ledgerInfo : LedgerInfoWithSignatures) (newLedgerInfo : LedgerInfo)

/-- What a call returns. -/
inductive Reply where
  | unit
  | signature (s : Signature)
  | vote (v : Vote)
  | orderVote (ov : OrderVote)
  | error (e : Error)
  deriving DecidableEq

/-- The reply of a call that returns `α`. -/
def Reply.ofExcept {α : Type} (wrap : α → Reply) : Except Error α → Reply
  | .ok x => wrap x
  | .error e => .error e

namespace SafetyRules

/-- One call; `none` when it panics. -/
def step (a : Aptos) (sr : SafetyRules) : Call → Option (SafetyRules × Reply)
  | .initializeEpoch proof keyFound waypointWrite safetyDataWrite =>
      let (sr', r) := guardedInitialize a sr proof keyFound waypointWrite safetyDataWrite
      some (sr', Reply.ofExcept (fun _ => .unit) r)
  | .signProposal blockData =>
      let (sr', r) := guardedSignProposal a sr blockData
      some (sr', Reply.ofExcept .signature r)
  | .signTimeoutWithQc timeout timeoutCert write =>
      let (sr', r) := guardedSignTimeoutWithQc a sr timeout timeoutCert write
      some (sr', Reply.ofExcept .signature r)
  | .constructAndSignVoteTwoChain vp timeoutCert write =>
      (guardedConstructAndSignVoteTwoChain a sr vp timeoutCert write).map fun (sr', r) =>
        (sr', Reply.ofExcept .vote r)
  | .constructAndSignOrderVote ovp write =>
      let (sr', r) := guardedConstructAndSignOrderVote a sr ovp write
      some (sr', Reply.ofExcept .orderVote r)
  | .signCommitVote ledgerInfo newLedgerInfo =>
      some (sr, Reply.ofExcept .signature (guardedSignCommitVote a sr ledgerInfo newLedgerInfo))

end SafetyRules

/-! ### Reads and writes of the storage -/

namespace PersistentSafetyStorage

/-- The cache is empty or holds what the store holds. -/
def Coherent (p : PersistentSafetyStorage) : Prop :=
  p.cachedSafetyData = none ∨ p.cachedSafetyData = p.safetyDataStore

variable {p p' : PersistentSafetyStorage}

theorem safetyData_eq_ok (hc : p.Coherent) {sd : SafetyData} (h : p.safetyData = .ok (sd, p')) :
    p.safetyDataStore = some sd ∧ p'.safetyDataStore = p.safetyDataStore ∧ p'.Coherent ∧
      p'.waypointStore = p.waypointStore ∧ p'.author = p.author := by
  unfold safetyData at h
  split_ifs at h
  · split at h
    · simp only [Except.ok.injEq, Prod.mk.injEq] at h
      obtain ⟨rfl, rfl⟩ := h
      exact ⟨by assumption, rfl, hc, rfl, rfl⟩
    · cases h
  · split at h
    · rename_i cached hcache
      simp only [Except.ok.injEq, Prod.mk.injEq] at h
      obtain ⟨rfl, rfl⟩ := h
      rcases hc with none | same
      · rw [none] at hcache
        cases hcache
      · exact ⟨same ▸ hcache, rfl, Or.inr same, rfl, rfl⟩
    · split at h
      · rename_i data stored
        simp only [Except.ok.injEq, Prod.mk.injEq] at h
        obtain ⟨rfl, rfl⟩ := h
        exact ⟨stored, rfl, Or.inr stored.symm, rfl, rfl⟩
      · cases h

theorem setSafetyData_store (p : PersistentSafetyStorage) (data : SafetyData) (w : WriteOutcome) :
    (p.setSafetyData data w).1.Coherent ∧
      ((p.setSafetyData data w).1.safetyDataStore = p.safetyDataStore ∨
        (p.setSafetyData data w).1.safetyDataStore = some data) ∧
      ((p.setSafetyData data w).2 = .ok () → (p.setSafetyData data w).1.safetyDataStore = some data) ∧
      (p.setSafetyData data w).1.waypointStore = p.waypointStore ∧
      (p.setSafetyData data w).1.author = p.author := by
  cases w <;> simp [setSafetyData, Coherent]

theorem setWaypoint_store (hc : p.Coherent) (w : Waypoint) (o : WriteOutcome) :
    (p.setWaypoint w o).1.Coherent ∧
      (p.setWaypoint w o).1.safetyDataStore = p.safetyDataStore ∧
      (p.setWaypoint w o).1.author = p.author := by
  cases o <;> exact ⟨hc, rfl, rfl⟩

end PersistentSafetyStorage

/-! ### What a call may write

Every `set_safety_data` of the entry points writes one of four updates of the
SafetyData the call read; `Update` lists them, and the monotonicity of the
persisted data is a property of each. -/

namespace SafetyData

/-- The SafetyData one call may leave in the store, given the `sd` it read. -/
inductive Update (sd : SafetyData) : SafetyData → Prop
  | keep : Update sd sd
  /-- `guarded_initialize` starting a newer epoch. -/
  | startEpoch (epoch : Nat) (later : sd.epoch < epoch) : Update sd ⟨epoch, 0, 0, 0, none, 0⟩
  /-- `guarded_sign_timeout_with_qc`. -/
  | timeout (t : TwoChainTimeout) (notBelow : sd.lastVotedRound ≤ t.round) :
      Update sd (SafetyRules.updateHighestTimeoutRound t { sd with lastVotedRound := t.round })
  /-- `guarded_construct_and_sign_vote_two_chain` with a new vote. -/
  | vote (qc : QuorumCert) (v : Vote) (sameEpoch : v.epoch = sd.epoch) (above : sd.lastVotedRound < v.round) :
      Update sd { SafetyRules.observeQc qc { sd with lastVotedRound := v.round } with lastVote := some v }
  /-- `guarded_construct_and_sign_order_vote`. -/
  | orderVote (qc : QuorumCert) : Update sd (SafetyRules.observeQc qc sd)

/-- The epoch does not decrease and, within an epoch, neither do the four
rounds. -/
def Advances (sd sd' : SafetyData) : Prop :=
  sd.epoch < sd'.epoch ∨
    (sd.epoch = sd'.epoch ∧ sd.lastVotedRound ≤ sd'.lastVotedRound ∧
      sd.preferredRound ≤ sd'.preferredRound ∧ sd.oneChainRound ≤ sd'.oneChainRound ∧
      sd.highestTimeoutRound ≤ sd'.highestTimeoutRound)

theorem Advances.refl (sd : SafetyData) : Advances sd sd :=
  Or.inr ⟨rfl, Nat.le_refl _, Nat.le_refl _, Nat.le_refl _, Nat.le_refl _⟩

theorem Advances.trans {sd₁ sd₂ sd₃ : SafetyData} (h₁ : Advances sd₁ sd₂) (h₂ : Advances sd₂ sd₃) :
    Advances sd₁ sd₃ := by
  rcases h₁ with later₁ | ⟨same₁, voted₁, preferred₁, oneChain₁, timeout₁⟩
  · refine Or.inl ?_
    rcases h₂ with later₂ | ⟨same₂, -⟩
    · exact Nat.lt_trans later₁ later₂
    · exact same₂ ▸ later₁
  · rcases h₂ with later₂ | ⟨same₂, voted₂, preferred₂, oneChain₂, timeout₂⟩
    · exact Or.inl (same₁ ▸ later₂)
    · exact Or.inr ⟨same₁.trans same₂, Nat.le_trans voted₁ voted₂, Nat.le_trans preferred₁ preferred₂,
        Nat.le_trans oneChain₁ oneChain₂, Nat.le_trans timeout₁ timeout₂⟩

theorem Update.advances {sd sd' : SafetyData} (h : Update sd sd') : Advances sd sd' := by
  cases h with
  | keep => exact Advances.refl sd
  | startEpoch epoch later => exact Or.inl later
  | timeout t notBelow =>
    refine Or.inr ⟨rfl, notBelow, Nat.le_refl _, Nat.le_refl _, ?_⟩
    exact Nat.le_max_left _ _
  | vote qc v sameEpoch above =>
    exact Or.inr ⟨rfl, Nat.le_of_lt above, Nat.le_max_left _ _, Nat.le_max_left _ _, Nat.le_refl _⟩
  | orderVote qc =>
    exact Or.inr ⟨rfl, Nat.le_refl _, Nat.le_max_left _ _, Nat.le_max_left _ _, Nat.le_refl _⟩

theorem Update.lastVote {sd sd' : SafetyData} (h : Update sd sd') :
    (sd.epoch < sd'.epoch ∧ sd'.lastVote = none) ∨
      (sd'.epoch = sd.epoch ∧ sd.lastVotedRound ≤ sd'.lastVotedRound ∧
        sd.highestTimeoutRound ≤ sd'.highestTimeoutRound ∧
        (sd'.lastVote = sd.lastVote ∨
          ∃ v, sd'.lastVote = some v ∧ v.epoch = sd.epoch ∧ sd.lastVotedRound < v.round ∧
            v.round = sd'.lastVotedRound)) := by
  cases h with
  | keep => exact Or.inr ⟨rfl, Nat.le_refl _, Nat.le_refl _, Or.inl rfl⟩
  | startEpoch epoch later => exact Or.inl ⟨later, rfl⟩
  | timeout t notBelow =>
    exact Or.inr ⟨rfl, notBelow, Nat.le_max_left _ _, Or.inl rfl⟩
  | vote qc v sameEpoch above =>
    exact Or.inr ⟨rfl, Nat.le_of_lt above, Nat.le_refl _, Or.inr ⟨v, rfl, sameEpoch, above, rfl⟩⟩
  | orderVote qc => exact Or.inr ⟨rfl, Nat.le_refl _, Nat.le_refl _, Or.inl rfl⟩

end SafetyData

/-! ### Calls over a coherent store -/

namespace SafetyRules

/-- The store holds `sd` and the cache is empty or holds the same. -/
structure Holds (sr : SafetyRules) (sd : SafetyData) : Prop where
  coherent : sr.persistentStorage.Coherent
  store : sr.persistentStorage.safetyDataStore = some sd

/-- One call read `sd` and left in the store one of its updates. -/
structure Stores (sd : SafetyData) (sr sr' : SafetyRules) : Prop where
  holds : ∃ sd', SafetyData.Update sd sd' ∧ Holds sr' sd'
  author_eq : sr'.persistentStorage.author = sr.persistentStorage.author

variable {a : Aptos} {sr sr' : SafetyRules} {sd : SafetyData}

theorem Holds.read (hh : Holds sr sd) {p : PersistentSafetyStorage} {sd' : SafetyData}
    (h : sr.persistentStorage.safetyData = .ok (sd', p)) :
    sd = sd' ∧ Holds (sr.withStorage p) sd ∧ p.author = sr.persistentStorage.author := by
  obtain ⟨stored, same, coherent, -, author⟩ := PersistentSafetyStorage.safetyData_eq_ok hh.coherent h
  rw [hh.store, Option.some.injEq] at stored
  exact ⟨stored, ⟨coherent, same.trans hh.store⟩, author⟩

theorem Holds.stores (hh : Holds sr' sd) (author : sr'.persistentStorage.author = sr.persistentStorage.author) :
    Stores sd sr sr' :=
  ⟨⟨sd, .keep, hh⟩, author⟩

theorem Stores.error {α : Type} {e : Error} {P : α → Prop} (stores : Stores sd sr sr') :
    Stores sd sr sr' ∧ ∀ y, (.error e : Except Error α) = .ok y → P y :=
  ⟨stores, fun _ hy => by cases hy⟩

theorem persistThen_stores {α : Type} {sr₁ : SafetyRules} {d : SafetyData} {w : WriteOutcome} {x : α}
    {r : Except Error α} (hh : Holds sr₁ sd)
    (author : sr₁.persistentStorage.author = sr.persistentStorage.author) (hd : SafetyData.Update sd d)
    (h : sr₁.persistThen d w x = (sr', r)) :
    Stores sd sr sr' ∧ ∀ y, r = .ok y → y = x ∧ sr'.persistentStorage.safetyDataStore = some d := by
  obtain ⟨coherent, store, success, -, author'⟩ :=
    PersistentSafetyStorage.setSafetyData_store sr₁.persistentStorage d w
  unfold persistThen at h
  split at h <;> rename_i p written <;> rw [written] at coherent store success author' <;>
    simp only [Prod.mk.injEq] at h <;> obtain ⟨rfl, rfl⟩ := h
  · have held : Holds (sr₁.withStorage p) d := ⟨coherent, success rfl⟩
    exact ⟨⟨⟨d, hd, held⟩, author'.trans author⟩, fun y hy => ⟨(Except.ok.inj hy).symm, held.store⟩⟩
  · refine ⟨⟨?_, author'.trans author⟩, fun y hy => by cases hy⟩
    rcases store with same | stored
    · exact ⟨sd, .keep, coherent, same.trans hh.store⟩
    · exact ⟨d, hd, coherent, stored⟩

/-! ### The checks of the entry points -/

theorem signer_eq_ok {signer : ValidatorSigner} (h : sr.signer = .ok signer) :
    sr.validatorSigner = some signer := by
  unfold SafetyRules.signer at h
  split at h
  · rename_i s hs
    cases h
    exact hs
  · cases h

theorem verifyEpoch_eq_ok {epoch : Nat} {u : Unit} (h : verifyEpoch epoch sd = .ok u) :
    epoch = sd.epoch := by
  unfold verifyEpoch at h
  split_ifs at h with differs
  exact not_not.mp differs

theorem verifyAndUpdateLastVoteRound_eq_ok {round : Nat} {sd' : SafetyData}
    (h : verifyAndUpdateLastVoteRound round sd = .ok sd') :
    sd.lastVotedRound < round ∧ sd' = { sd with lastVotedRound := round } := by
  unfold verifyAndUpdateLastVoteRound at h
  split_ifs at h with voted
  exact ⟨Nat.lt_of_not_le voted, (Except.ok.inj h).symm⟩

theorem safeForOrderVote_eq_ok {block : Block} {u : Unit} (h : safeForOrderVote block sd = .ok u) :
    sd.highestTimeoutRound < block.round := by
  unfold safeForOrderVote at h
  split_ifs at h with above
  exact above

theorem timeoutUpdate_eq_ok {t : TwoChainTimeout} {tc : Option TwoChainTimeoutCertificate}
    {sd' : SafetyData} (h : timeoutUpdate a sr t tc sd = .ok sd') :
    t.epoch = sd.epoch ∧ sd.lastVotedRound ≤ t.round ∧
      sd' = updateHighestTimeoutRound t { sd with lastVotedRound := t.round } := by
  simp only [timeoutUpdate, Except.bind_eq_ok] at h
  obtain ⟨_, sameEpoch, es, -, h⟩ := h
  refine ⟨verifyEpoch_eq_ok sameEpoch, ?_⟩
  -- the branches that throw are closed by the simp set of `Except`
  split_ifs at h with verified below above <;> simp at h
  · obtain ⟨-, -, raised, hraised, rfl⟩ := h
    obtain ⟨lt, rfl⟩ := verifyAndUpdateLastVoteRound_eq_ok hraised
    exact ⟨Nat.le_of_lt lt, rfl⟩
  · obtain ⟨-, -, rfl⟩ := h
    have equal : t.round = sd.lastVotedRound := by omega
    exact ⟨Nat.le_of_eq equal.symm, by rw [equal]⟩

theorem verifyProposal_eq_ok {vp : VoteProposal} {vd : VoteData}
    (h : verifyProposal a sr vp sd = some (.ok vd)) :
    vp.block.epoch = sd.epoch ∧ verifyQc a sr vp.block.quorumCert = .ok () ∧
      blockWellFormed a vp.block = true ∧
      vd = ⟨vp.block.genBlockInfo a.accumulatorPlaceholderHash 0 vp.nextEpochState,
        vp.block.quorumCert.certifiedBlock⟩ := by
  simp only [verifyProposal] at h
  split at h
  · cases h
  · rename_i checked
    simp only [Except.bind_eq_ok] at checked
    obtain ⟨_, sameEpoch, _, verified, es, -, checked⟩ := checked
    have wellFormed : blockWellFormed a vp.block = true := by
      split_ifs at checked <;> simp_all
    refine ⟨verifyEpoch_eq_ok sameEpoch, verified, wellFormed, ?_⟩
    unfold genVoteData at h
    split_ifs at h
    · simpa using h.symm
    · simp at h

/-- `v` is the new vote `guarded_construct_and_sign_vote_two_chain` builds
for `vp` from a state `sr` with signer `signer`: the vote data of the block,
the 2-chain ledger info of it, the signer's signature, and the checks it
passed on the way. -/
structure FreshVote (a : Aptos) (sr : SafetyRules) (signer : ValidatorSigner) (vp : VoteProposal)
    (tc : Option TwoChainTimeoutCertificate) (v : Vote) : Prop where
  voteData_eq : v.voteData =
    ⟨vp.block.genBlockInfo a.accumulatorPlaceholderHash 0 vp.nextEpochState, vp.block.quorumCert.certifiedBlock⟩
  qcVerified : verifyQc a sr vp.block.quorumCert = .ok ()
  tcVerified : verifyTcIfPresent a sr tc = .ok ()
  wellFormed : blockWellFormed a vp.block = true
  safe : safeToVote vp.block tc = .ok ()
  ledgerInfo_eq : constructLedgerInfo2chain vp.block (a.hashVoteData v.voteData) = .ok v.ledgerInfo
  author_eq : v.author = signer.author
  signature_eq : v.signature = a.sign signer (.ledgerInfo v.ledgerInfo)

theorem FreshVote.epoch_eq {signer : ValidatorSigner} {vp : VoteProposal}
    {tc : Option TwoChainTimeoutCertificate} {v : Vote} (h : FreshVote a sr signer vp tc v) :
    v.epoch = vp.block.epoch := by
  simp [Vote.epoch, h.voteData_eq, Block.genBlockInfo]

theorem FreshVote.round_eq {signer : ValidatorSigner} {vp : VoteProposal}
    {tc : Option TwoChainTimeoutCertificate} {v : Vote} (h : FreshVote a sr signer vp tc v) :
    v.round = vp.block.round := by
  simp [Vote.round, h.voteData_eq, Block.genBlockInfo]

theorem voteUpdate_eq_resend {signer : ValidatorSigner} {vp : VoteProposal} {vd : VoteData}
    {tc : Option TwoChainTimeoutCertificate} {v : Vote}
    (h : voteUpdate a signer vp vd tc sd = .ok (.inl v)) :
    sd.lastVote = some v ∧ v.round = vp.block.round := by
  simp only [voteUpdate] at h
  split at h
  · rename_i last stored
    split_ifs at h with sameRound
    · cases h
      exact ⟨stored, sameRound⟩
    · simp at h
  · simp at h

theorem voteUpdate_eq_vote {signer : ValidatorSigner} {vp : VoteProposal} {vd : VoteData}
    {tc : Option TwoChainTimeoutCertificate} {v : Vote} {sd' : SafetyData}
    (h : voteUpdate a signer vp vd tc sd = .ok (.inr (v, sd'))) :
    sd.lastVotedRound < vp.block.round ∧ safeToVote vp.block tc = .ok () ∧
      constructLedgerInfo2chain vp.block (a.hashVoteData vd) = .ok v.ledgerInfo ∧
      v = ⟨vd, signer.author, v.ledgerInfo, a.sign signer (.ledgerInfo v.ledgerInfo), none⟩ ∧
      sd' = { observeQc vp.block.quorumCert { sd with lastVotedRound := vp.block.round } with
        lastVote := some v } := by
  simp only [voteUpdate] at h
  -- the branch where the last vote is of another round continues as the one without a last vote
  have chain : ∃ raised, verifyAndUpdateLastVoteRound vp.block.blockData.round sd = .ok raised ∧
      (∃ u, safeToVote vp.block tc = .ok u) ∧
      ∃ li, constructLedgerInfo2chain vp.block (a.hashVoteData vd) = .ok li ∧
        ⟨vd, signer.author, li, a.sign signer (.ledgerInfo li), none⟩ = v ∧
        { observeQc vp.block.quorumCert raised with
          lastVote := some ⟨vd, signer.author, li, a.sign signer (.ledgerInfo li), none⟩ } = sd' := by
    split at h
    · split_ifs at h
      · simp at h
      · simpa using h
    · simpa using h
  obtain ⟨raised, hraised, ⟨u, safe⟩, li, built, rfl, rfl⟩ := chain
  obtain ⟨above, rfl⟩ := verifyAndUpdateLastVoteRound_eq_ok hraised
  exact ⟨above, safe, built, rfl, rfl⟩

theorem verifyOrderVoteProposal_eq_ok {ovp : OrderVoteProposal} {u : Unit}
    (h : verifyOrderVoteProposal a sr ovp sd = .ok u) :
    ovp.block.epoch = sd.epoch ∧ ovp.quorumCert.certifiedBlock = ovp.blockInfo ∧
      ovp.quorumCert.certifiedBlock.id = ovp.block.id ∧ verifyQc a sr ovp.quorumCert = .ok () := by
  simp only [verifyOrderVoteProposal, Except.bind_eq_ok] at h
  obtain ⟨_, sameEpoch, h⟩ := h
  have certifies : ovp.quorumCert.certifiedBlock = ovp.blockInfo := by
    by_contra differs
    simp [differs] at h
  rw [if_neg (not_not.mpr certifies)] at h
  have sameId : ovp.quorumCert.certifiedBlock.id = ovp.block.id := by
    by_contra differs
    simp [differs] at h
  rw [if_neg (not_not.mpr sameId)] at h
  exact ⟨verifyEpoch_eq_ok sameEpoch, certifies, sameId, h⟩

/-! ### The guarded entry points -/

theorem guardedSignTimeoutWithQc_spec {t : TwoChainTimeout} {tc : Option TwoChainTimeoutCertificate}
    {w : WriteOutcome} {r : Except Error Signature} (hh : Holds sr sd)
    (h : guardedSignTimeoutWithQc a sr t tc w = (sr', r)) :
    Stores sd sr sr' ∧ ∀ s, r = .ok s →
      t.epoch = sd.epoch ∧ sd.lastVotedRound ≤ t.round ∧
      sr'.persistentStorage.safetyDataStore =
        some (updateHighestTimeoutRound t { sd with lastVotedRound := t.round }) ∧
      ∃ signer, sr.validatorSigner = some signer ∧ s = a.sign signer (.timeout t.signingFormat) := by
  simp only [guardedSignTimeoutWithQc] at h
  split at h
  · cases h
    exact Stores.error (hh.stores rfl)
  rename_i signer hsigner
  split at h
  · cases h
    exact Stores.error (hh.stores rfl)
  rename_i sd₀ p hread
  obtain ⟨rfl, hh₁, author⟩ := hh.read hread
  split at h
  · cases h
    exact Stores.error (hh₁.stores author)
  rename_i sd₁ hupdate
  obtain ⟨sameEpoch, notBelow, rfl⟩ := timeoutUpdate_eq_ok hupdate
  obtain ⟨stores, success⟩ := persistThen_stores hh₁ author (.timeout t notBelow) h
  refine ⟨stores, fun s hs => ?_⟩
  obtain ⟨rfl, stored⟩ := success s hs
  exact ⟨sameEpoch, notBelow, stored, signer, signer_eq_ok hsigner, rfl⟩

theorem guardedConstructAndSignVoteTwoChain_spec {vp : VoteProposal}
    {tc : Option TwoChainTimeoutCertificate} {w : WriteOutcome} {r : Except Error Vote} (hh : Holds sr sd)
    (h : guardedConstructAndSignVoteTwoChain a sr vp tc w = some (sr', r)) :
    Stores sd sr sr' ∧ ∀ v, r = .ok v →
      (sd.lastVote = some v ∧ v.round = vp.block.round ∧
        sr'.persistentStorage.safetyDataStore = some sd) ∨
      (∃ signer, sr.validatorSigner = some signer ∧ FreshVote a sr signer vp tc v ∧
        vp.block.epoch = sd.epoch ∧ sd.lastVotedRound < vp.block.round ∧
        sr'.persistentStorage.safetyDataStore = some
          { observeQc vp.block.quorumCert { sd with lastVotedRound := vp.block.round } with
            lastVote := some v }) := by
  simp only [guardedConstructAndSignVoteTwoChain] at h
  split at h
  · cases h
    exact Stores.error (hh.stores rfl)
  rename_i signer hsigner
  split at h
  · cases h
    exact Stores.error (hh.stores rfl)
  rename_i sd₀ p hread
  obtain ⟨rfl, hh₁, author₁⟩ := hh.read hread
  simp only [Option.map_eq_some_iff] at h
  obtain ⟨checked, hchecked, h⟩ := h
  split at h
  · cases h
    exact Stores.error (hh₁.stores author₁)
  rename_i vd
  obtain ⟨sameEpoch, qcVerified, wellFormed, rfl⟩ := verifyProposal_eq_ok hchecked
  split at h
  · cases h
    exact Stores.error (hh₁.stores author₁)
  rename_i tcVerified
  split at h
  · cases h
    exact Stores.error (hh₁.stores author₁)
  -- the second read finds what the first one cached
  rename_i sd₂ p₂ hread₂
  obtain ⟨rfl, hh₂, author₂⟩ := hh₁.read hread₂
  split at h
  · cases h
    exact Stores.error (hh₂.stores (author₂.trans author₁))
  · rename_i v resent
    cases h
    obtain ⟨last, sameRound⟩ := voteUpdate_eq_resend resent
    refine ⟨hh₂.stores (author₂.trans author₁), fun v' hv => ?_⟩
    cases hv
    exact Or.inl ⟨last, sameRound, hh₂.store⟩
  · rename_i v sd' voted
    obtain ⟨above, safe, built, shape, rfl⟩ := voteUpdate_eq_vote voted
    have fresh : FreshVote a sr signer vp tc v := by
      refine ⟨?_, qcVerified, tcVerified, wellFormed, safe, ?_, ?_, ?_⟩
      all_goals rw [shape]
      exact built
    have update : SafetyData.Update sd
        { observeQc vp.block.quorumCert { sd with lastVotedRound := vp.block.round } with
          lastVote := some v } := by
      rw [← fresh.round_eq]
      exact .vote _ v (fresh.epoch_eq.trans sameEpoch) (fresh.round_eq ▸ above)
    obtain ⟨stores, success⟩ := persistThen_stores hh₂ (author₂.trans author₁) update h
    refine ⟨stores, fun v' hv => ?_⟩
    obtain ⟨rfl, stored⟩ := success v' hv
    exact Or.inr ⟨signer, signer_eq_ok hsigner, fresh, sameEpoch, above, stored⟩

theorem guardedConstructAndSignOrderVote_spec {ovp : OrderVoteProposal} {w : WriteOutcome}
    {r : Except Error OrderVote} (hh : Holds sr sd)
    (h : guardedConstructAndSignOrderVote a sr ovp w = (sr', r)) :
    Stores sd sr sr' ∧ ∀ ov, r = .ok ov →
      ovp.block.epoch = sd.epoch ∧ sd.highestTimeoutRound < ovp.block.round ∧
      ovp.quorumCert.certifiedBlock = ovp.blockInfo ∧ ovp.quorumCert.certifiedBlock.id = ovp.block.id ∧
      verifyQc a sr ovp.quorumCert = .ok () ∧
      sr'.persistentStorage.safetyDataStore = some (observeQc ovp.quorumCert sd) ∧
      ∃ signer, sr.validatorSigner = some signer ∧
        ov = ⟨signer.author, ⟨ovp.blockInfo, 0⟩, a.sign signer (.ledgerInfo ⟨ovp.blockInfo, 0⟩)⟩ := by
  simp only [guardedConstructAndSignOrderVote] at h
  split at h
  · cases h
    exact Stores.error (hh.stores rfl)
  rename_i signer hsigner
  split at h
  · cases h
    exact Stores.error (hh.stores rfl)
  rename_i sd₀ p hread
  obtain ⟨rfl, hh₁, author₁⟩ := hh.read hread
  split at h
  · cases h
    exact Stores.error (hh₁.stores author₁)
  rename_i checked
  obtain ⟨sameEpoch, certifies, sameId, verified⟩ := verifyOrderVoteProposal_eq_ok checked
  split at h
  · cases h
    exact Stores.error (hh₁.stores author₁)
  rename_i sd₂ p₂ hread₂
  obtain ⟨rfl, hh₂, author₂⟩ := hh₁.read hread₂
  split at h
  · cases h
    exact Stores.error (hh₂.stores (author₂.trans author₁))
  rename_i safe
  obtain ⟨stores, success⟩ := persistThen_stores hh₂ (author₂.trans author₁) (.orderVote _) h
  refine ⟨stores, fun ov hov => ?_⟩
  obtain ⟨rfl, stored⟩ := success ov hov
  exact ⟨sameEpoch, safeForOrderVote_eq_ok safe, certifies, sameId, verified, stored, signer,
    signer_eq_ok hsigner, rfl⟩

theorem guardedSignProposal_stores {blockData : BlockData} {r : Except Error Signature}
    (hh : Holds sr sd) (h : guardedSignProposal a sr blockData = (sr', r)) : Stores sd sr sr' := by
  simp only [guardedSignProposal] at h
  split at h
  · cases h
    exact hh.stores rfl
  split at h
  · cases h
    exact hh.stores rfl
  split_ifs at h
  · cases h
    exact hh.stores rfl
  split at h
  · cases h
    exact hh.stores rfl
  rename_i sd₀ p hread
  obtain ⟨rfl, hh₁, author₁⟩ := hh.read hread
  split at h <;> cases h <;> exact hh₁.stores author₁

theorem reconcileKey_persistentStorage {es : EpochState} {keyFound : Bool} {r : Except Error Unit}
    (h : reconcileKey a sr es keyFound = (sr', r)) : sr'.persistentStorage = sr.persistentStorage := by
  simp only [reconcileKey] at h
  split_ifs at h <;> cases h <;> rfl

theorem Holds.advanceWaypoint (hh : Holds sr sd) {waypoint wp : Waypoint}
    {o : WriteOutcome} {p : PersistentSafetyStorage} {e : Except Error Unit}
    (h : sr.persistentStorage.advanceWaypoint waypoint wp o = (p, e)) :
    Holds (sr.withStorage p) sd ∧ p.author = sr.persistentStorage.author := by
  unfold PersistentSafetyStorage.advanceWaypoint at h
  split_ifs at h
  · obtain ⟨coherent, store, author⟩ := PersistentSafetyStorage.setWaypoint_store hh.coherent wp o
    rw [h] at coherent store author
    exact ⟨⟨coherent, store.trans hh.store⟩, author⟩
  · cases h
    exact ⟨⟨hh.coherent, hh.store⟩, rfl⟩

theorem Holds.startEpoch (hh : Holds sr sd) {epoch : Nat} {o : WriteOutcome}
    {p : PersistentSafetyStorage} {e : Except Error Unit}
    (h : sr.persistentStorage.startEpoch sd.epoch epoch o = (p, e)) :
    Stores sd sr (sr.withStorage p) := by
  unfold PersistentSafetyStorage.startEpoch at h
  split_ifs at h with newer
  · obtain ⟨coherent, store, -, -, author⟩ :=
      PersistentSafetyStorage.setSafetyData_store sr.persistentStorage ⟨epoch, 0, 0, 0, none, 0⟩ o
    rw [h] at coherent store author
    rcases store with same | stored
    · exact ⟨⟨sd, .keep, coherent, same.trans hh.store⟩, author⟩
    · exact ⟨⟨_, .startEpoch epoch newer, coherent, stored⟩, author⟩
  · cases h
    exact hh.stores rfl

theorem guardedInitialize_stores {proof : EpochChangeProof} {keyFound : Bool}
    {waypointWrite safetyDataWrite : WriteOutcome} {r : Except Error Unit} (hh : Holds sr sd)
    (h : guardedInitialize a sr proof keyFound waypointWrite safetyDataWrite = (sr', r)) :
    Stores sd sr sr' := by
  simp only [guardedInitialize] at h
  split at h
  · cases h
    exact hh.stores rfl
  split at h
  · rename_i p e written
    cases h
    obtain ⟨hh₁, author₁⟩ := hh.advanceWaypoint written
    exact hh₁.stores author₁
  rename_i p written
  obtain ⟨hh₁, author₁⟩ := hh.advanceWaypoint written
  split at h
  · cases h
    exact hh₁.stores author₁
  rename_i sd₀ p₁ hread
  obtain ⟨rfl, hh₂, author₂⟩ := hh₁.read hread
  split_ifs at h
  · cases h
    exact hh₂.stores (author₂.trans author₁)
  -- the epoch write, then the key reconciliation
  split at h <;> rename_i p₂ e started <;> obtain ⟨⟨sd', update, hh₃⟩, author₃⟩ := hh₂.startEpoch started
  · cases h
    exact ⟨⟨sd', update, hh₃⟩, author₃.trans (author₂.trans author₁)⟩
  · have kept := reconcileKey_persistentStorage h
    refine ⟨⟨sd', update, ?_, ?_⟩, ?_⟩ <;> rw [kept]
    exacts [hh₃.coherent, hh₃.store, author₃.trans (author₂.trans author₁)]

/-! ### One call of the transition system -/

section Step

variable {c : Call} {r : Reply}

@[simp] theorem step_initializeEpoch {proof : EpochChangeProof} {keyFound : Bool}
    {waypointWrite safetyDataWrite : WriteOutcome} :
    step a sr (.initializeEpoch proof keyFound waypointWrite safetyDataWrite) =
      some ((guardedInitialize a sr proof keyFound waypointWrite safetyDataWrite).1,
        Reply.ofExcept (fun _ => .unit) (guardedInitialize a sr proof keyFound waypointWrite safetyDataWrite).2) :=
  rfl

@[simp] theorem step_signProposal {blockData : BlockData} :
    step a sr (.signProposal blockData) =
      some ((guardedSignProposal a sr blockData).1, Reply.ofExcept .signature (guardedSignProposal a sr blockData).2) :=
  rfl

@[simp] theorem step_signTimeoutWithQc {t : TwoChainTimeout} {tc : Option TwoChainTimeoutCertificate}
    {w : WriteOutcome} :
    step a sr (.signTimeoutWithQc t tc w) =
      some ((guardedSignTimeoutWithQc a sr t tc w).1,
        Reply.ofExcept .signature (guardedSignTimeoutWithQc a sr t tc w).2) :=
  rfl

@[simp] theorem step_constructAndSignVoteTwoChain {vp : VoteProposal}
    {tc : Option TwoChainTimeoutCertificate} {w : WriteOutcome} :
    step a sr (.constructAndSignVoteTwoChain vp tc w) =
      (guardedConstructAndSignVoteTwoChain a sr vp tc w).map fun x => (x.1, Reply.ofExcept .vote x.2) :=
  rfl

@[simp] theorem step_constructAndSignOrderVote {ovp : OrderVoteProposal} {w : WriteOutcome} :
    step a sr (.constructAndSignOrderVote ovp w) =
      some ((guardedConstructAndSignOrderVote a sr ovp w).1,
        Reply.ofExcept .orderVote (guardedConstructAndSignOrderVote a sr ovp w).2) :=
  rfl

@[simp] theorem step_signCommitVote {ledgerInfo : LedgerInfoWithSignatures} {newLedgerInfo : LedgerInfo} :
    step a sr (.signCommitVote ledgerInfo newLedgerInfo) =
      some (sr, Reply.ofExcept .signature (guardedSignCommitVote a sr ledgerInfo newLedgerInfo)) :=
  rfl

theorem Reply.ofExcept_eq_ok {α : Type} {wrap : α → Reply} {x : Except Error α}
    (h : Reply.ofExcept wrap x = r) (notError : ∀ e, r ≠ .error e) : ∃ y, x = .ok y ∧ wrap y = r := by
  cases x with
  | error e => exact absurd h.symm (notError e)
  | ok y => exact ⟨y, rfl, h⟩

theorem step_stores (hh : Holds sr sd) (h : step a sr c = some (sr', r)) : Stores sd sr sr' := by
  cases c with
  | initializeEpoch proof keyFound waypointWrite safetyDataWrite =>
    simp only [step_initializeEpoch, Option.some.injEq, Prod.mk.injEq] at h
    obtain ⟨rfl, -⟩ := h
    exact guardedInitialize_stores hh rfl
  | signProposal blockData =>
    simp only [step_signProposal, Option.some.injEq, Prod.mk.injEq] at h
    obtain ⟨rfl, -⟩ := h
    exact guardedSignProposal_stores hh rfl
  | signTimeoutWithQc t tc w =>
    simp only [step_signTimeoutWithQc, Option.some.injEq, Prod.mk.injEq] at h
    obtain ⟨rfl, -⟩ := h
    exact (guardedSignTimeoutWithQc_spec hh rfl).1
  | constructAndSignVoteTwoChain vp tc w =>
    simp only [step_constructAndSignVoteTwoChain, Option.map_eq_some_iff, Prod.mk.injEq] at h
    obtain ⟨⟨sr₁, x⟩, voted, rfl, -⟩ := h
    exact (guardedConstructAndSignVoteTwoChain_spec hh voted).1
  | constructAndSignOrderVote ovp w =>
    simp only [step_constructAndSignOrderVote, Option.some.injEq, Prod.mk.injEq] at h
    obtain ⟨rfl, -⟩ := h
    exact (guardedConstructAndSignOrderVote_spec hh rfl).1
  | signCommitVote ledgerInfo newLedgerInfo =>
    simp only [step_signCommitVote, Option.some.injEq, Prod.mk.injEq] at h
    obtain ⟨rfl, -⟩ := h
    exact hh.stores rfl

theorem step_vote {v : Vote} (hh : Holds sr sd) (h : step a sr c = some (sr', .vote v)) :
    ∃ vp tc w, c = .constructAndSignVoteTwoChain vp tc w ∧
      ((sd.lastVote = some v ∧ v.round = vp.block.round ∧
          sr'.persistentStorage.safetyDataStore = some sd) ∨
        (∃ signer, sr.validatorSigner = some signer ∧ FreshVote a sr signer vp tc v ∧
          vp.block.epoch = sd.epoch ∧ sd.lastVotedRound < vp.block.round ∧
          sr'.persistentStorage.safetyDataStore = some
            { observeQc vp.block.quorumCert { sd with lastVotedRound := vp.block.round } with
              lastVote := some v })) := by
  have notError : ∀ e, Reply.vote v ≠ .error e := fun _ => Reply.noConfusion
  cases c with
  | constructAndSignVoteTwoChain vp tc w =>
    simp only [step_constructAndSignVoteTwoChain, Option.map_eq_some_iff, Prod.mk.injEq] at h
    obtain ⟨⟨sr₁, x⟩, voted, rfl, replied⟩ := h
    obtain ⟨y, rfl, hy⟩ := Reply.ofExcept_eq_ok replied notError
    cases hy
    exact ⟨vp, tc, w, rfl, (guardedConstructAndSignVoteTwoChain_spec hh voted).2 v rfl⟩
  | initializeEpoch =>
    simp only [step_initializeEpoch, Option.some.injEq, Prod.mk.injEq] at h
    obtain ⟨y, -, hy⟩ := Reply.ofExcept_eq_ok h.2 notError
    cases hy
  | signProposal =>
    simp only [step_signProposal, Option.some.injEq, Prod.mk.injEq] at h
    obtain ⟨y, -, hy⟩ := Reply.ofExcept_eq_ok h.2 notError
    cases hy
  | signTimeoutWithQc =>
    simp only [step_signTimeoutWithQc, Option.some.injEq, Prod.mk.injEq] at h
    obtain ⟨y, -, hy⟩ := Reply.ofExcept_eq_ok h.2 notError
    cases hy
  | constructAndSignOrderVote =>
    simp only [step_constructAndSignOrderVote, Option.some.injEq, Prod.mk.injEq] at h
    obtain ⟨y, -, hy⟩ := Reply.ofExcept_eq_ok h.2 notError
    cases hy
  | signCommitVote =>
    simp only [step_signCommitVote, Option.some.injEq, Prod.mk.injEq] at h
    obtain ⟨y, -, hy⟩ := Reply.ofExcept_eq_ok h.2 notError
    cases hy

theorem step_timeout {t : TwoChainTimeout} {tc : Option TwoChainTimeoutCertificate} {w : WriteOutcome}
    {s : Signature} (hh : Holds sr sd) (h : step a sr (.signTimeoutWithQc t tc w) = some (sr', .signature s)) :
    t.epoch = sd.epoch ∧ sd.lastVotedRound ≤ t.round ∧
      sr'.persistentStorage.safetyDataStore =
        some (updateHighestTimeoutRound t { sd with lastVotedRound := t.round }) ∧
      ∃ signer, sr.validatorSigner = some signer ∧ s = a.sign signer (.timeout t.signingFormat) := by
  simp only [step_signTimeoutWithQc, Option.some.injEq, Prod.mk.injEq] at h
  obtain ⟨rfl, replied⟩ := h
  obtain ⟨y, signed, hy⟩ := Reply.ofExcept_eq_ok replied fun _ => Reply.noConfusion
  cases hy
  exact (guardedSignTimeoutWithQc_spec hh rfl).2 s signed

theorem step_orderVote {ovp : OrderVoteProposal} {w : WriteOutcome} {ov : OrderVote} (hh : Holds sr sd)
    (h : step a sr (.constructAndSignOrderVote ovp w) = some (sr', .orderVote ov)) :
    ovp.block.epoch = sd.epoch ∧ sd.highestTimeoutRound < ovp.block.round ∧
      ovp.quorumCert.certifiedBlock = ovp.blockInfo ∧ ovp.quorumCert.certifiedBlock.id = ovp.block.id ∧
      verifyQc a sr ovp.quorumCert = .ok () ∧
      sr'.persistentStorage.safetyDataStore = some (observeQc ovp.quorumCert sd) ∧
      ∃ signer, sr.validatorSigner = some signer ∧
        ov = ⟨signer.author, ⟨ovp.blockInfo, 0⟩, a.sign signer (.ledgerInfo ⟨ovp.blockInfo, 0⟩)⟩ := by
  simp only [step_constructAndSignOrderVote, Option.some.injEq, Prod.mk.injEq] at h
  obtain ⟨rfl, replied⟩ := h
  obtain ⟨y, signed, hy⟩ := Reply.ofExcept_eq_ok replied fun _ => Reply.noConfusion
  cases hy
  exact (guardedConstructAndSignOrderVote_spec hh rfl).2 ov signed

end Step

end SafetyRules

end GravitySdk.Consensus
