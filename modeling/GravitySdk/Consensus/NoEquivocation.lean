/- Safety rules never equivocate.
   digest: Over every run of the entry points from a freshly initialised
   storage, whatever the storage writes do, the persisted SafetyData only
   advances, the votes returned are unique per epoch and round, a vote at or
   below a round already voted or timed out is the stored last vote, and an
   order vote is above every round timed out in its epoch. -/

import GravitySdk.Consensus.SafetyStep
import GravitySdk.Lib.Transition

set_option autoImplicit false
set_option relaxedAutoImplicit false

namespace GravitySdk.Consensus

open GravitySdk.Lib.Transition

/-! The argument is one invariant over the state and the history of calls and
replies: the stored SafetyData accounts for every vote and timeout the run
returned.  Each call stores an `Update` of what it read, which keeps old
replies accounted for (`Accounts.update`), and the reply it adds is accounted
for by the update itself (`Accounts.record`). -/

namespace SafetyRules

/-- The run returned the vote `v`. -/
def Voted (evs : List (Call × Reply)) (v : Vote) : Prop :=
  ∃ c, (c, Reply.vote v) ∈ evs

/-- The run signed a timeout for `t`. -/
def TimedOut (evs : List (Call × Reply)) (t : TwoChainTimeout) : Prop :=
  ∃ tc w s, (Call.signTimeoutWithQc t tc w, Reply.signature s) ∈ evs

theorem voted_append {evs : List (Call × Reply)} {c : Call} {r : Reply} {v : Vote} :
    Voted (evs ++ [(c, r)]) v ↔ Voted evs v ∨ r = .vote v := by
  simp only [Voted, List.mem_append, List.mem_singleton, Prod.mk.injEq]
  constructor
  · rintro ⟨c', old | ⟨-, rfl⟩⟩
    · exact Or.inl ⟨c', old⟩
    · exact Or.inr rfl
  · rintro (⟨c', old⟩ | rfl)
    · exact ⟨c', Or.inl old⟩
    · exact ⟨c, Or.inr ⟨rfl, rfl⟩⟩

theorem timedOut_append {evs : List (Call × Reply)} {c : Call} {r : Reply} {t : TwoChainTimeout} :
    TimedOut (evs ++ [(c, r)]) t ↔
      TimedOut evs t ∨ ∃ tc w s, c = .signTimeoutWithQc t tc w ∧ r = .signature s := by
  simp only [TimedOut, List.mem_append, List.mem_singleton, Prod.mk.injEq]
  constructor
  · rintro ⟨tc, w, s, old | ⟨rfl, rfl⟩⟩
    · exact Or.inl ⟨tc, w, s, old⟩
    · exact Or.inr ⟨tc, w, s, rfl, rfl⟩
  · rintro (⟨tc, w, s, old⟩ | ⟨tc, w, s, rfl, rfl⟩)
    · exact ⟨tc, w, s, Or.inl old⟩
    · exact ⟨tc, w, s, Or.inr ⟨rfl, rfl⟩⟩

/-- What the stored SafetyData `sd` says about the votes and timeouts of a
run: the last vote is of the epoch and not above the last voted round; a vote
of the epoch is at or below the last vote, and is it when of its round; a
timeout of the epoch is at or below the last voted and the highest timeout
round; and no two votes of one epoch and round differ. -/
structure Accounts (sd : SafetyData) (evs : List (Call × Reply)) : Prop where
  lastVote : ∀ v, sd.lastVote = some v → v.epoch = sd.epoch ∧ v.round ≤ sd.lastVotedRound
  votes : ∀ v, Voted evs v → v.epoch < sd.epoch ∨
    (v.epoch = sd.epoch ∧ ∃ w, sd.lastVote = some w ∧ v.round ≤ w.round ∧ (v.round = w.round → v = w))
  timeouts : ∀ t, TimedOut evs t → t.epoch < sd.epoch ∨
    (t.epoch = sd.epoch ∧ t.round ≤ sd.lastVotedRound ∧ t.round ≤ sd.highestTimeoutRound)
  unique : ∀ v₁ v₂, Voted evs v₁ → Voted evs v₂ → v₁.epoch = v₂.epoch → v₁.round = v₂.round → v₁ = v₂

/-- The run invariant: the store holds, coherently cached, data that accounts
for the run. -/
def Sound (sr : SafetyRules) (evs : List (Call × Reply)) : Prop :=
  ∃ sd, Holds sr sd ∧ Accounts sd evs

variable {a : Aptos} {sr sr' : SafetyRules} {sd sd' : SafetyData} {evs : List (Call × Reply)}

theorem Accounts.nil_of_lastVote_none (h : sd.lastVote = none) : Accounts sd [] where
  lastVote v hv := by simp [h] at hv
  votes v := by simp [Voted]
  timeouts t := by simp [TimedOut]
  unique v₁ v₂ := by simp [Voted]

theorem Accounts.update (acc : Accounts sd evs) (u : SafetyData.Update sd sd') : Accounts sd' evs := by
  have lastVote' : ∀ v, sd'.lastVote = some v → v.epoch = sd'.epoch ∧ v.round ≤ sd'.lastVotedRound := by
    intro v hv
    cases u with
    | keep => exact acc.lastVote v hv
    | startEpoch epoch later => cases hv
    | timeout t notBelow =>
      obtain ⟨sameEpoch, below⟩ := acc.lastVote v hv
      exact ⟨sameEpoch, Nat.le_trans below notBelow⟩
    | vote qc w sameEpoch above =>
      cases hv
      exact ⟨sameEpoch, Nat.le_refl _⟩
    | orderVote qc => exact acc.lastVote v hv
  refine ⟨lastVote', ?_, ?_, acc.unique⟩
  · intro v voted
    rcases u.lastVote with ⟨later, -⟩ | ⟨sameEpoch, -, -, kept | ⟨w', stored, -, above, -⟩⟩
    · left
      rcases acc.votes v voted with earlier | ⟨same, -⟩
      · exact Nat.lt_trans earlier later
      · exact same ▸ later
    · rw [sameEpoch, kept]
      exact acc.votes v voted
    · rw [sameEpoch]
      refine (acc.votes v voted).imp id fun ⟨same, w, last, below, _⟩ => ⟨same, w', stored, ?_⟩
      -- the new last vote is above the last voted round, hence above every earlier vote
      have : v.round < w'.round := Nat.lt_of_le_of_lt (Nat.le_trans below (acc.lastVote w last).2) above
      exact ⟨Nat.le_of_lt this, fun equal => absurd equal (Nat.ne_of_lt this)⟩
  · intro t timedOut
    rcases u.lastVote with ⟨later, -⟩ | ⟨sameEpoch, voted, timeout, -⟩
    · left
      rcases acc.timeouts t timedOut with earlier | ⟨same, -⟩
      · exact Nat.lt_trans earlier later
      · exact same ▸ later
    · rw [sameEpoch]
      exact (acc.timeouts t timedOut).imp id fun ⟨same, belowVoted, belowTimeout⟩ =>
        ⟨same, Nat.le_trans belowVoted voted, Nat.le_trans belowTimeout timeout⟩

theorem Accounts.snoc {c : Call} {r : Reply} (acc : Accounts sd evs)
    (newVote : ∀ v, r = .vote v →
      (v.epoch = sd.epoch ∧ sd.lastVote = some v) ∧
        ∀ u, Voted evs u → u.epoch = v.epoch → u.round = v.round → u = v)
    (newTimeout : ∀ t tc w s, c = .signTimeoutWithQc t tc w → r = .signature s →
      t.epoch = sd.epoch ∧ t.round ≤ sd.lastVotedRound ∧ t.round ≤ sd.highestTimeoutRound) :
    Accounts sd (evs ++ [(c, r)]) := by
  refine ⟨acc.lastVote, ?_, ?_, ?_⟩
  · intro v voted
    rcases voted_append.mp voted with old | rfl
    · exact acc.votes v old
    · obtain ⟨⟨sameEpoch, last⟩, -⟩ := newVote v rfl
      exact Or.inr ⟨sameEpoch, v, last, Nat.le_refl _, fun _ => rfl⟩
  · intro t timedOut
    rcases timedOut_append.mp timedOut with old | ⟨tc, w, s, rfl, rfl⟩
    · exact acc.timeouts t old
    · exact Or.inr (newTimeout t tc w s rfl rfl)
  · intro v₁ v₂ voted₁ voted₂ sameEpoch sameRound
    rcases voted_append.mp voted₁ with old₁ | rfl <;> rcases voted_append.mp voted₂ with old₂ | new₂
    · exact acc.unique v₁ v₂ old₁ old₂ sameEpoch sameRound
    · cases new₂
      exact (newVote v₂ rfl).2 v₁ old₁ sameEpoch sameRound
    · exact ((newVote v₁ rfl).2 v₂ old₂ sameEpoch.symm sameRound.symm).symm
    · cases new₂
      rfl

theorem Sound.step {c : Call} {r : Reply} (sound : Sound sr evs) (h : step a sr c = some (sr', r)) :
    Sound sr' (evs ++ [(c, r)]) := by
  obtain ⟨sd, hh, acc⟩ := sound
  obtain ⟨⟨sd', u, hh'⟩, -⟩ := step_stores hh h
  have stored : ∀ {d}, sr'.persistentStorage.safetyDataStore = some d → sd' = d := fun s =>
    Option.some.inj (hh'.store.symm.trans s)
  refine ⟨sd', hh', (acc.update u).snoc ?_ ?_⟩
  · rintro v rfl
    obtain ⟨vp, tc, w, rfl, ⟨last, -, kept⟩ | ⟨signer, -, fresh, sameEpoch, above, written⟩⟩ :=
      step_vote hh h
    · -- the re-sent vote is the stored last vote, and any vote of its round is it
      obtain rfl := stored kept
      obtain ⟨epochEq, -⟩ := acc.lastVote v last
      refine ⟨⟨epochEq, last⟩, fun u voted sameEpoch sameRound => ?_⟩
      rcases acc.votes u voted with earlier | ⟨-, w', last', -, atRound⟩
      · exact absurd (sameEpoch.trans epochEq) (Nat.ne_of_lt earlier)
      · rw [last, Option.some.injEq] at last'
        subst last'
        exact atRound sameRound
    · -- a fresh vote is above every vote of its epoch before it
      obtain rfl := stored written
      have epochEq : v.epoch = sd.epoch := fresh.epoch_eq.trans sameEpoch
      refine ⟨⟨epochEq, rfl⟩, fun u voted uEpoch uRound => ?_⟩
      rcases acc.votes u voted with earlier | ⟨-, w', last', below, -⟩
      · exact absurd (uEpoch.trans epochEq) (Nat.ne_of_lt earlier)
      · have : u.round < v.round := by
          rw [fresh.round_eq]
          exact Nat.lt_of_le_of_lt (Nat.le_trans below (acc.lastVote w' last').2) above
        exact absurd uRound (Nat.ne_of_lt this)
  · rintro t tc w s rfl rfl
    obtain ⟨sameEpoch, notBelow, written, -⟩ := step_timeout hh h
    obtain rfl := stored written
    exact ⟨sameEpoch, Nat.le_refl _, Nat.le_max_right _ _⟩

theorem sound_fresh (author : Author) (waypoint : Waypoint) (cached : Bool) :
    Sound (new (PersistentSafetyStorage.initializeFresh author waypoint cached)) [] :=
  ⟨⟨1, 0, 0, 0, none, 0⟩, ⟨Or.inr rfl, rfl⟩, Accounts.nil_of_lastVote_none rfl⟩

theorem Holds.advances {evs' : List (Call × Reply)} (hh : Holds sr sd)
    (run : Trace (step a) (fun _ _ => True) sr evs' sr') :
    ∃ sd', sr'.persistentStorage.safetyDataStore = some sd' ∧ sd.Advances sd' := by
  let Later (s s' : SafetyRules) : Prop := ∀ d, s.persistentStorage.safetyDataStore = some d →
    ∃ d', s'.persistentStorage.safetyDataStore = some d' ∧ d.Advances d'
  have later : Later sr sr' := by
    refine Trace.chain Later (fun s d hd => ⟨d, hd, .refl d⟩) ?_ (fun s => ∃ d, Holds s d) ?_ run ⟨sd, hh⟩
    · intro s₁ s₂ s₃ l₁₂ l₂₃ d hd
      obtain ⟨d', hd', adv⟩ := l₁₂ d hd
      obtain ⟨d'', hd'', adv'⟩ := l₂₃ d' hd'
      exact ⟨d'', hd'', adv.trans adv'⟩
    · rintro s s' c r ⟨d, hs⟩ - h
      obtain ⟨⟨d', u, hs'⟩, -⟩ := step_stores hs h
      refine ⟨fun d₀ hd₀ => ?_, d', hs'⟩
      obtain rfl : d = d₀ := Option.some.inj (hs.store.symm.trans hd₀)
      exact ⟨d', hs'.store, u.advances⟩
  exact later sd hh.store

/-- What it means that safety rules never equivocate, at the state `sr`
reached by the run `evs`: the data it stores advances along every
continuation; the votes returned are unique per epoch and round; a vote it
returns at or below a round already voted or timed out in that epoch is the
stored last vote; and an order vote it returns is for a block above every
round timed out in the block's epoch. -/
structure NeverEquivocates (a : Aptos) (evs : List (Call × Reply)) (sr : SafetyRules) : Prop where
  advances : ∃ sd, sr.persistentStorage.safetyDataStore = some sd ∧
    ∀ evs' sr', Trace (step a) (fun _ _ => True) sr evs' sr' →
      ∃ sd', sr'.persistentStorage.safetyDataStore = some sd' ∧ sd.Advances sd'
  votesUnique : ∀ v₁ v₂, Voted evs v₁ → Voted evs v₂ → v₁.epoch = v₂.epoch → v₁.round = v₂.round → v₁ = v₂
  resendsOnly : ∀ c sr' v, step a sr c = some (sr', .vote v) →
    ((∃ u, Voted evs u ∧ u.epoch = v.epoch ∧ v.round ≤ u.round) ∨
      (∃ t, TimedOut evs t ∧ t.epoch = v.epoch ∧ v.round ≤ t.round)) →
    ∃ sd, sr.persistentStorage.safetyDataStore = some sd ∧ sd.lastVote = some v
  orderVoteAboveTimeouts : ∀ ovp w sr' ov,
    step a sr (.constructAndSignOrderVote ovp w) = some (sr', .orderVote ov) →
    ∀ t, TimedOut evs t → t.epoch = ovp.block.epoch → t.round < ovp.block.round

/-- The run invariant gives each property at every state of a run. -/
theorem Sound.neverEquivocates (sound : Sound sr evs) : NeverEquivocates a evs sr := by
  obtain ⟨sd, hh, acc⟩ := sound
  refine ⟨⟨sd, hh.store, fun evs' sr' run => hh.advances run⟩, acc.unique, ?_, ?_⟩
  · intro c sr' v h earlier
    obtain ⟨vp, tc, w, rfl, ⟨last, -⟩ | ⟨signer, -, fresh, sameEpoch, above, -⟩⟩ := step_vote hh h
    · exact ⟨sd, hh.store, last⟩
    -- a fresh vote is above the last voted round, which bounds every earlier vote and timeout
    have epochEq : v.epoch = sd.epoch := fresh.epoch_eq.trans sameEpoch
    have roundAbove : sd.lastVotedRound < v.round := fresh.round_eq ▸ above
    exfalso
    rcases earlier with ⟨u, voted, uEpoch, atOrBelow⟩ | ⟨t, timedOut, tEpoch, atOrBelow⟩
    · rcases acc.votes u voted with earlier | ⟨-, w', last', below, -⟩
      · exact Nat.ne_of_lt earlier (uEpoch.trans epochEq)
      · have := Nat.le_trans atOrBelow (Nat.le_trans below (acc.lastVote w' last').2)
        exact Nat.lt_irrefl _ (Nat.lt_of_lt_of_le roundAbove this)
    · rcases acc.timeouts t timedOut with earlier | ⟨-, belowVoted, -⟩
      · exact Nat.ne_of_lt earlier (tEpoch.trans epochEq)
      · exact Nat.lt_irrefl _ (Nat.lt_of_lt_of_le roundAbove (Nat.le_trans atOrBelow belowVoted))
  · intro ovp w sr' ov h t timedOut tEpoch
    obtain ⟨sameEpoch, above, -⟩ := step_orderVote hh h
    rcases acc.timeouts t timedOut with earlier | ⟨-, -, belowTimeout⟩
    · exact absurd (tEpoch.trans sameEpoch) (Nat.ne_of_lt earlier)
    · exact Nat.lt_of_le_of_lt belowTimeout above

/-- Safety rules never equivocate, at every state of every run from a freshly
initialised storage, whatever its storage writes do. -/
theorem safety_rules_never_equivocate (a : Aptos) {author : Author} {waypoint : Waypoint} {cached : Bool}
    {evs : List (Call × Reply)} {sr : SafetyRules}
    (run : Trace (step a) (fun _ _ => True)
      (new (PersistentSafetyStorage.initializeFresh author waypoint cached)) evs sr) :
    NeverEquivocates a evs sr := by
  have sound : Sound sr evs :=
    Trace.invariant (fun s evs => Sound s evs) (sound_fresh author waypoint cached)
      (fun _ _ _ _ _ sound _ h => sound.step h) run
  exact sound.neverEquivocates

/-- External crates whose checks all pass and whose signatures are ideal. -/
def passingAptos : Aptos where
  hashVoteData _ := 0
  accumulatorPlaceholderHash := 0
  verifySignatures _ _ := true
  verifyTimeoutSignatures _ _ := true
  validateBlockSignature _ _ := true
  wellFormedRest _ := true
  verifyEpochChangeProof proof _ := proof.ledgerInfoWithSigs.getLast?
  newEpochBoundary li := some ⟨li.commitInfo.version, 0⟩
  inValidatorSet _ _ := true
  isOrderedOnly _ := false
  matchOrderedOnly _ _ := true
  sign signer message := ⟨signer.author, message⟩

/-- Initialise epoch 1 from a fresh store, vote for block 5 of round 1 on the
genesis QC, then get a proposal of another block for round 1: the second
request re-sends the first vote. -/
theorem safety_rules_never_equivocate_after_vote_requests :
    let genesis : BlockInfo := { BlockInfo.empty with epoch := 1 }
    let genesisQc : QuorumCert := ⟨⟨genesis, genesis⟩, ⟨⟨genesis, 0⟩, []⟩⟩
    let proposal : HashValue → VoteProposal := fun id => ⟨⟨id, ⟨1, 1, 0, genesisQc, some 0⟩⟩, none, true⟩
    let vote : Vote := ⟨⟨⟨1, 1, 5, 0, 0, 0, none⟩, genesis⟩, 0, ⟨genesis, 0⟩, ⟨0, .ledgerInfo ⟨genesis, 0⟩⟩, none⟩
    let calls : List Call :=
      [.initializeEpoch ⟨[⟨⟨{ genesis with nextEpochState := some ⟨1, 0⟩ }, 0⟩, []⟩]⟩ true .ok .ok,
        .constructAndSignVoteTwoChain (proposal 5) none .ok, .constructAndSignVoteTwoChain (proposal 6) none .ok]
    ∃ sr, run (step passingAptos) (new (PersistentSafetyStorage.initializeFresh 0 ⟨0, 0⟩ true)) calls =
        some (sr, [.unit, .vote vote, .vote vote]) ∧
      NeverEquivocates passingAptos (calls.zip [.unit, .vote vote, .vote vote]) sr := by
  intro genesis genesisQc proposal vote calls
  have shape : (run (step passingAptos) (new (PersistentSafetyStorage.initializeFresh 0 ⟨0, 0⟩ true)) calls).map
      Prod.snd = some [.unit, .vote vote, .vote vote] := by decide +kernel
  obtain ⟨⟨sr, rs⟩, ran, rfl⟩ := Option.map_eq_some_iff.mp shape
  exact ⟨sr, ran, safety_rules_never_equivocate passingAptos (Trace.of_run ran)⟩

end SafetyRules

end GravitySdk.Consensus
