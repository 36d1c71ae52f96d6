/- The votes of one round, as consensus collects them.
   digest: PendingVotes: the vote recorded for each author, the signatures on
   each ledger-info digest, the partial 2-chain timeout certificate and the
   echo flag; insert_vote with its repeat and equivocation checks, the quorum
   that forms a QC, the timeout path that forms a TC or echoes, and
   process_delayed_qc. -/

import GravitySdk.Consensus.Timeout2Chain
import GravitySdk.Lib.KeyMap
import GravitySdk.Lib.Transition

set_option autoImplicit false
set_option relaxedAutoImplicit false

namespace GravitySdk.Consensus

open GravitySdk.Lib
open Timeout2Chain

/-!
`li_digest_to_votes` keeps beside each entry the position it was created at,
which only labels metrics, and `insert_vote` sets metrics that nothing reads:
both are left out.  The QC aggregator is `NoDelayQcAggregator`, the only one
`create_qc_aggregator` builds.  The digest of a ledger info is a parameter
`hash`.
-/

/-- `Vote::is_timeout`. -/
def Vote.isTimeout (vote : Vote) : Bool := vote.twoChainTimeout.isSome

/-- `LedgerInfoWithVerifiedSignatures`: a ledger info and its signatures, by
author. -/
structure LedgerInfoWithVerifiedSignatures where
  ledgerInfo : LedgerInfo
  signatures : SortedStore Author Signature

namespace LedgerInfoWithVerifiedSignatures

/-- `add_signature`: an author's first signature stays. -/
def addSignature (li : LedgerInfoWithVerifiedSignatures) (validator : Author) (signature : Signature) :
    LedgerInfoWithVerifiedSignatures :=
  { li with signatures := li.signatures.orInsert validator signature }

def signers (li : LedgerInfoWithVerifiedSignatures) : List Author :=
  li.signatures.entries.map Prod.fst

/-- `aggregate_signatures` of aptos-types, the two steps that
`aggregate_commit_proof` of the pipeline also takes: the verifier's aggregate
of the signatures, then `LedgerInfoWithSignatures::new` with the ledger info,
whose aggregate the model keeps as the signers it names. -/
def aggregateSignatures (li : LedgerInfoWithVerifiedSignatures) (v : ValidatorVerifier) :
    Except VerifyError LedgerInfoWithSignatures := do
  let aggregatedSig ← v.aggregateSignatures li.signatures.entries
  pure ⟨li.ledgerInfo, v.signersAddresses aggregatedSig⟩

end LedgerInfoWithVerifiedSignatures

/-- `VoteReceptionResult`, the variants the modelled code returns. -/
inductive VoteReceptionResult where
  | voteAdded (votingPower : Nat)
  | duplicateVote
  | equivocateVote
  | newQuorumCertificate (qc : QuorumCert)
  | new2ChainTimeoutCertificate (tc : Timeout2Chain.TwoChainTimeoutCertificate)
  | errorAddingVote (error : VerifyError)
  | errorAggregatingSignature (error : VerifyError)
  | errorAggregatingTimeoutCertificate (error : VerifyError)
  | echoTimeout (votingPower : Nat)
  deriving DecidableEq, Repr

def VoteReceptionResult.isEchoTimeout : VoteReceptionResult → Bool
  | .echoTimeout _ => true
  | _ => false

/-- The replies of step 1 of `insert_vote`, which turn a vote away. -/
def VoteReceptionResult.isRejection : VoteReceptionResult → Bool
  | .duplicateVote | .equivocateVote => true
  | _ => false

/-- `PendingVotes`. -/
structure PendingVotes where
  liDigestToVotes : KeyMap HashValue LedgerInfoWithVerifiedSignatures
  maybePartial2ChainTc : Option TwoChainTimeoutWithPartialSignatures
  authorToVote : KeyMap Author (Vote × HashValue)
  echoTimeout : Bool

namespace PendingVotes

def new : PendingVotes := ⟨KeyMap.empty, none, KeyMap.empty, false⟩

variable (hash : LedgerInfo → HashValue) (v : ValidatorVerifier) (pv : PendingVotes)

/-- `aggregate_qc_now`. -/
def aggregateQcNow (liWithSig : LedgerInfoWithVerifiedSignatures) (voteData : VoteData) :
    VoteReceptionResult :=
  match liWithSig.aggregateSignatures v with
  | .ok ledgerInfoWithSig => .newQuorumCertificate ⟨voteData, ledgerInfoWithSig⟩
  | .error e => .errorAggregatingSignature e

/-- Step 1 of `insert_vote`: the reply to an author that voted already, unless
its vote is for the same digest and newly carries a timeout. -/
def seenVote (liDigest : HashValue) (vote : Vote) : Option VoteReceptionResult :=
  match pv.authorToVote.get vote.author with
  | none => none
  | some (previouslySeenVote, previousLiDigest) =>
      if liDigest = previousLiDigest then
        if vote.isTimeout && !previouslySeenVote.isTimeout then none else some .duplicateVote
      else some .equivocateVote

/-- Steps 2 and 3 of `insert_vote`, up to the quorum check: the vote recorded
for its author, and its signature added to the ledger info of its digest. -/
def storeVote (liDigest : HashValue) (vote : Vote) : PendingVotes × LedgerInfoWithVerifiedSignatures :=
  let liWithSig := ((pv.liDigestToVotes.get liDigest).getD ⟨vote.ledgerInfo, SortedStore.empty⟩).addSignature
    vote.author vote.signature
  ({ pv with
      authorToVote := pv.authorToVote.insert vote.author (vote, liDigest)
      liDigestToVotes := pv.liDigestToVotes.insert liDigest liWithSig }, liWithSig)

/-- `total_voting_power - quorum_voting_power + 1`, in `u128`: `none` when the
subtraction underflows. -/
def fPlusOne : Option Nat :=
  if v.totalVotingPower < v.quorumVotingPower then none
  else some (v.totalVotingPower - v.quorumVotingPower + 1)

/-- The partial certificate, started from the vote's timeout if there is
none, with the vote's timeout added. -/
def addToPartialTc (vote : Vote) (timeout : TwoChainTimeout) (signature : Signature) :
    TwoChainTimeoutWithPartialSignatures :=
  (pv.maybePartial2ChainTc.getD (.new timeout)).add vote.author timeout signature

/-- Step 4 of `insert_vote`: the timeout added to the partial certificate,
which is aggregated once its signers hold a quorum, and echoed once they hold
f + 1 if it was not echoed yet. -/
def addTimeout (vote : Vote) (timeout : TwoChainTimeout) (signature : Signature) (votingPower : Nat) :
    Option (PendingVotes × VoteReceptionResult) :=
  let partialTc := pv.addToPartialTc vote timeout signature
  let pv := { pv with maybePartial2ChainTc := some partialTc }
  match v.checkVotingPower partialTc.signers with
  | .ok _ =>
      match partialTc.aggregateSignatures v with
      | .ok tcWithSig => some (pv, .new2ChainTimeoutCertificate tcWithSig)
      | .error e => some (pv, .errorAggregatingTimeoutCertificate e)
  | .error (.tooLittleVotingPower tcVotingPower _) =>
      if !pv.echoTimeout then
        match fPlusOne v with
        | none => none
        | some fPlusOne =>
            if tcVotingPower ≥ fPlusOne then some ({ pv with echoTimeout := true }, .echoTimeout tcVotingPower)
            else some (pv, .voteAdded votingPower)
      else some (pv, .voteAdded votingPower)
  | .error error => some (pv, .errorAddingVote error)

/-- Steps 3 to 5 of `insert_vote`, from the quorum check of the ledger info's
signers on: a QC, else the timeout path, else the voting power so far. -/
def checkQuorum (vote : Vote) (liWithSig : LedgerInfoWithVerifiedSignatures) :
    Option (PendingVotes × VoteReceptionResult) :=
  match v.checkVotingPower liWithSig.signers with
  | .ok aggregatedVotingPower =>
      -- the assertion of `NoDelayQcAggregator::handle_aggregated_qc`
      if aggregatedVotingPower < v.quorumVotingPower then none
      else some (pv, aggregateQcNow v liWithSig vote.voteData)
  | .error (.tooLittleVotingPower votingPower _) =>
      match vote.twoChainTimeout with
      | some (timeout, signature) => pv.addTimeout v vote timeout signature votingPower
      | none => some (pv, .voteAdded votingPower)
  | .error error => some (pv, .errorAddingVote error)

/-- `insert_vote`; `none` is a panic (the quorum assertion of the aggregator,
or the underflow of f + 1). -/
def insertVote (vote : Vote) : Option (PendingVotes × VoteReceptionResult) :=
  let liDigest := hash vote.ledgerInfo
  match pv.seenVote liDigest vote with
  | some reply => some (pv, reply)
  | none =>
      let (pv, liWithSig) := pv.storeVote liDigest vote
      pv.checkQuorum v vote liWithSig

/-- `process_delayed_qc`: it changes nothing. -/
def processDelayedQc (vote : Vote) : VoteReceptionResult :=
  match pv.liDigestToVotes.get (hash vote.ledgerInfo) with
  | some liWithSig =>
      match v.checkVotingPower liWithSig.signers with
      | .ok _ => aggregateQcNow v liWithSig vote.voteData
      | .error (.tooLittleVotingPower _ _) => .errorAddingVote .emptySignature
      | .error error => .errorAddingVote error
  | none => .errorAddingVote .emptySignature

/-- The calls a round's vote collection takes. -/
inductive Call where
  | insertVote (vote : Vote)
  | processDelayedQc (vote : Vote)
  deriving DecidableEq, Repr

/-- The vote a call carries. -/
def Call.vote : Call → Vote
  | .insertVote vote => vote
  | .processDelayedQc vote => vote

def step : Call → Option (PendingVotes × VoteReceptionResult)
  | .insertVote vote => pv.insertVote hash v vote
  | .processDelayedQc vote => some (pv, pv.processDelayedQc hash v vote)

/-- The signature of an author on a digest. -/
def signatureOf (liDigest : HashValue) (author : Author) : Option Signature :=
  (pv.liDigestToVotes.get liDigest).bind fun li => li.signatures.get author

section Spec

variable {hash v pv}

@[simp] theorem storeVote_authorToVote (liDigest : HashValue) (vote : Vote) :
    (pv.storeVote liDigest vote).1.authorToVote = pv.authorToVote.insert vote.author (vote, liDigest) := rfl

@[simp] theorem storeVote_liDigestToVotes (liDigest : HashValue) (vote : Vote) :
    (pv.storeVote liDigest vote).1.liDigestToVotes =
      pv.liDigestToVotes.insert liDigest (pv.storeVote liDigest vote).2 := rfl

@[simp] theorem storeVote_maybePartial2ChainTc (liDigest : HashValue) (vote : Vote) :
    (pv.storeVote liDigest vote).1.maybePartial2ChainTc = pv.maybePartial2ChainTc := rfl

@[simp] theorem storeVote_echoTimeout (liDigest : HashValue) (vote : Vote) :
    (pv.storeVote liDigest vote).1.echoTimeout = pv.echoTimeout := rfl

theorem storeVote_ledgerInfo (liDigest : HashValue) (vote : Vote) :
    (pv.storeVote liDigest vote).2.ledgerInfo =
      ((pv.liDigestToVotes.get liDigest).map (·.ledgerInfo)).getD vote.ledgerInfo := by
  unfold storeVote
  cases pv.liDigestToVotes.get liDigest <;> rfl

theorem get_storeVote_signatures (liDigest : HashValue) (vote : Vote) (author : Author) :
    (pv.storeVote liDigest vote).2.signatures.get author =
      if author = vote.author then
        some ((pv.signatureOf liDigest vote.author).getD vote.signature)
      else pv.signatureOf liDigest author := by
  unfold storeVote signatureOf
  cases pv.liDigestToVotes.get liDigest <;>
    simp [LedgerInfoWithVerifiedSignatures.addSignature, SortedStore.get_orInsert]

theorem signatureOf_storeVote (liDigest : HashValue) (vote : Vote) (liDigest' : HashValue) (author : Author) :
    (pv.storeVote liDigest vote).1.signatureOf liDigest' author =
      if liDigest' = liDigest then (pv.storeVote liDigest vote).2.signatures.get author
      else pv.signatureOf liDigest' author := by
  unfold signatureOf
  rw [storeVote_liDigestToVotes, KeyMap.get_insert]
  split <;> simp

theorem get_addToPartialTc (vote : Vote) (timeout : TwoChainTimeout) (signature : Signature)
    (author : Author) :
    (pv.addToPartialTc vote timeout signature).signatures.get author =
      if author = vote.author then
        some ((pv.maybePartial2ChainTc.bind fun p => p.signatures.get vote.author).getD
          (timeout.hqcRound, signature))
      else pv.maybePartial2ChainTc.bind fun p => p.signatures.get author := by
  unfold addToPartialTc
  rw [TwoChainTimeoutWithPartialSignatures.get_add]
  cases pv.maybePartial2ChainTc <;> rfl

theorem addToPartialTc_timeout (vote : Vote) (timeout : TwoChainTimeout) (signature : Signature) :
    (pv.addToPartialTc vote timeout signature).timeout = timeout ∨
      ∃ p, pv.maybePartial2ChainTc = some p ∧ (pv.addToPartialTc vote timeout signature).timeout = p.timeout := by
  unfold addToPartialTc
  rw [TwoChainTimeoutWithPartialSignatures.timeout_add]
  cases hp : pv.maybePartial2ChainTc with
  | none =>
      left
      simp [TwoChainTimeoutWithPartialSignatures.new]
  | some p =>
      by_cases higher : p.timeout.hqcRound < timeout.hqcRound
      · left
        simp [higher]
      · right
        exact ⟨p, rfl, by simp [higher]⟩

theorem seenVote_eq_none {liDigest : HashValue} {vote : Vote} (h : pv.seenVote liDigest vote = none) :
    pv.authorToVote.get vote.author = none ∨
      ∃ previous, pv.authorToVote.get vote.author = some (previous, liDigest) ∧
        vote.isTimeout = true ∧ previous.isTimeout = false := by
  unfold seenVote at h
  cases hseen : pv.authorToVote.get vote.author with
  | none => exact .inl rfl
  | some seen =>
      obtain ⟨previous, previousLiDigest⟩ := seen
      rw [hseen] at h
      by_cases same : liDigest = previousLiDigest
      · subst same
        by_cases newTimeout : vote.isTimeout && !previous.isTimeout
        · simp only [Bool.and_eq_true, Bool.not_eq_true'] at newTimeout
          exact .inr ⟨previous, rfl, newTimeout⟩
        · simp [newTimeout] at h
      · simp [same] at h

theorem seenVote_eq_some {liDigest : HashValue} {vote : Vote} {reply : VoteReceptionResult}
    (h : pv.seenVote liDigest vote = some reply) :
    reply = .duplicateVote ∨ reply = .equivocateVote := by
  unfold seenVote at h
  split at h
  · cases h
  · split at h
    · split at h
      · cases h
      · cases h
        exact .inl rfl
    · cases h
      exact .inr rfl

theorem insertVote_eq_some {vote : Vote} {pv' : PendingVotes} {reply : VoteReceptionResult}
    (h : pv.insertVote hash v vote = some (pv', reply)) :
    (pv.seenVote (hash vote.ledgerInfo) vote = some reply ∧ pv' = pv) ∨
      (pv.seenVote (hash vote.ledgerInfo) vote = none ∧
        (pv.storeVote (hash vote.ledgerInfo) vote).1.checkQuorum v vote
          (pv.storeVote (hash vote.ledgerInfo) vote).2 = some (pv', reply)) := by
  unfold insertVote at h
  dsimp only at h
  cases hseen : pv.seenVote (hash vote.ledgerInfo) vote with
  | some seen =>
      rw [hseen] at h
      cases h
      exact .inl ⟨rfl, rfl⟩
  | none =>
      rw [hseen] at h
      exact .inr ⟨rfl, h⟩

theorem checkQuorum_eq_some {vote : Vote} {li : LedgerInfoWithVerifiedSignatures} {pv' : PendingVotes}
    {reply : VoteReceptionResult} (h : pv.checkQuorum v vote li = some (pv', reply)) :
    (∃ power, v.checkVotingPower li.signers = .ok power ∧ pv' = pv ∧
        reply = aggregateQcNow v li vote.voteData) ∨
      (∃ power expected, v.checkVotingPower li.signers = .error (.tooLittleVotingPower power expected) ∧
        ((vote.twoChainTimeout = none ∧ pv' = pv ∧ reply = .voteAdded power) ∨
          ∃ timeout signature, vote.twoChainTimeout = some (timeout, signature) ∧
            pv.addTimeout v vote timeout signature power = some (pv', reply))) ∨
      (∃ error, v.checkVotingPower li.signers = .error error ∧ pv' = pv ∧ reply = .errorAddingVote error) := by
  unfold checkQuorum at h
  split at h
  · rename_i power hcheck
    split at h
    · cases h
    · cases h
      exact .inl ⟨power, hcheck, rfl, rfl⟩
  · rename_i power expected hcheck
    right; left
    refine ⟨power, expected, hcheck, ?_⟩
    split at h
    · rename_i timeout signature htimeout
      exact .inr ⟨timeout, signature, htimeout, h⟩
    · rename_i htimeout
      cases h
      exact .inl ⟨htimeout, rfl, rfl⟩
  · rename_i error _ hcheck
    cases h
    exact .inr (.inr ⟨error, hcheck, rfl, rfl⟩)

theorem addTimeout_state {vote : Vote} {timeout : TwoChainTimeout} {signature : Signature} {power : Nat}
    {pv' : PendingVotes} {reply : VoteReceptionResult}
    (h : pv.addTimeout v vote timeout signature power = some (pv', reply)) :
    pv' = { pv with
      maybePartial2ChainTc := some (pv.addToPartialTc vote timeout signature)
      echoTimeout := pv.echoTimeout || reply.isEchoTimeout } := by
  unfold addTimeout at h
  dsimp only at h
  split at h
  · split at h <;> (cases h; simp [VoteReceptionResult.isEchoTimeout])
  · split at h
    · rename_i notEchoed
      split at h
      · cases h
      · split at h
        · cases h
          simp only [Bool.not_eq_true'] at notEchoed
          simp [VoteReceptionResult.isEchoTimeout, notEchoed]
        · cases h
          simp [VoteReceptionResult.isEchoTimeout]
    · cases h
      simp [VoteReceptionResult.isEchoTimeout]
  · cases h
    simp [VoteReceptionResult.isEchoTimeout]

theorem checkQuorum_authorToVote {vote : Vote} {li : LedgerInfoWithVerifiedSignatures} {pv' : PendingVotes}
    {reply : VoteReceptionResult} (h : pv.checkQuorum v vote li = some (pv', reply)) :
    pv'.authorToVote = pv.authorToVote := by
  rcases checkQuorum_eq_some h with
    ⟨-, -, rfl, -⟩ | ⟨_, _, -, (⟨-, rfl, -⟩ | ⟨timeout, signature, -, timeoutPath⟩)⟩ | ⟨-, -, rfl, -⟩
  · rfl
  · rfl
  · rw [addTimeout_state timeoutPath]
  · rfl

theorem addTimeout_new2ChainTimeoutCertificate {vote : Vote} {timeout : TwoChainTimeout}
    {signature : Signature} {power : Nat} {pv' : PendingVotes} {tc : Timeout2Chain.TwoChainTimeoutCertificate}
    (h : pv.addTimeout v vote timeout signature power = some (pv', .new2ChainTimeoutCertificate tc)) :
    (∃ tcPower, v.checkVotingPower (pv.addToPartialTc vote timeout signature).signers = .ok tcPower) ∧
      (pv.addToPartialTc vote timeout signature).aggregateSignatures v = .ok tc := by
  unfold addTimeout at h
  dsimp only at h
  split at h
  · rename_i tcPower hcheck
    split at h
    · rename_i aggregated
      cases h
      exact ⟨⟨tcPower, hcheck⟩, aggregated⟩
    · cases h
  · split at h
    · split at h
      · cases h
      · split at h <;> cases h
    · cases h
  · cases h

theorem addTimeout_echoTimeout {vote : Vote} {timeout : TwoChainTimeout} {signature : Signature}
    {power : Nat} {pv' : PendingVotes} {tcPower : Nat}
    (h : pv.addTimeout v vote timeout signature power = some (pv', .echoTimeout tcPower)) :
    pv.echoTimeout = false ∧
      (∃ expected, v.checkVotingPower (pv.addToPartialTc vote timeout signature).signers =
        .error (.tooLittleVotingPower tcPower expected)) ∧
      ∃ f, fPlusOne v = some f ∧ f ≤ tcPower := by
  unfold addTimeout at h
  dsimp only at h
  split at h
  · split at h <;> cases h
  · rename_i reported expected hcheck
    split at h
    · rename_i notEchoed
      split at h
      · cases h
      · rename_i f hf
        split at h
        · rename_i enough
          cases h
          simp only [Bool.not_eq_true'] at notEchoed
          exact ⟨notEchoed, ⟨expected, hcheck⟩, f, hf, enough⟩
        · cases h
    · cases h
  · cases h

theorem addTimeout_ne_newQuorumCertificate {vote : Vote} {timeout : TwoChainTimeout}
    {signature : Signature} {power : Nat} {pv' : PendingVotes} {qc : QuorumCert} :
    pv.addTimeout v vote timeout signature power ≠ some (pv', .newQuorumCertificate qc) := by
  intro h
  unfold addTimeout at h
  dsimp only at h
  split at h
  · split at h <;> cases h
  · split at h
    · split at h
      · cases h
      · split at h <;> cases h
    · cases h
  · cases h

theorem addTimeout_isRejection {vote : Vote} {timeout : TwoChainTimeout} {signature : Signature}
    {power : Nat} {pv' : PendingVotes} {reply : VoteReceptionResult}
    (h : pv.addTimeout v vote timeout signature power = some (pv', reply)) : reply.isRejection = false := by
  unfold addTimeout at h
  dsimp only at h
  split at h
  · split at h <;> (cases h; rfl)
  · split at h
    · split at h
      · cases h
      · split at h <;> (cases h; rfl)
    · cases h
      rfl
  · cases h
    rfl

theorem aggregateQcNow_cases (li : LedgerInfoWithVerifiedSignatures) (voteData : VoteData) :
    (∃ qc, aggregateQcNow v li voteData = .newQuorumCertificate qc) ∨
      ∃ e, aggregateQcNow v li voteData = .errorAggregatingSignature e := by
  unfold aggregateQcNow
  split
  · exact .inl ⟨_, rfl⟩
  · exact .inr ⟨_, rfl⟩

@[simp] theorem isEchoTimeout_aggregateQcNow (li : LedgerInfoWithVerifiedSignatures) (voteData : VoteData) :
    (aggregateQcNow v li voteData).isEchoTimeout = false := by
  rcases aggregateQcNow_cases li voteData with ⟨qc, hq⟩ | ⟨e, he⟩
  · rw [hq]
    rfl
  · rw [he]
    rfl

theorem checkQuorum_isRejection {vote : Vote} {li : LedgerInfoWithVerifiedSignatures} {pv' : PendingVotes}
    {reply : VoteReceptionResult} (h : pv.checkQuorum v vote li = some (pv', reply)) : reply.isRejection = false := by
  rcases checkQuorum_eq_some h with
    ⟨-, -, -, rfl⟩ | ⟨_, _, -, (⟨-, -, rfl⟩ | ⟨timeout, signature, -, timeoutPath⟩)⟩ | ⟨-, -, -, rfl⟩
  · rcases aggregateQcNow_cases li vote.voteData with ⟨qc, hq⟩ | ⟨e, he⟩
    · rw [hq]
      rfl
    · rw [he]
      rfl
  · rfl
  · exact addTimeout_isRejection timeoutPath
  · rfl

theorem aggregateQcNow_certified (lawful : v.Lawful) {li : LedgerInfoWithVerifiedSignatures}
    {voteData : VoteData} {qc : QuorumCert} {power : Nat} (hcheck : v.checkVotingPower li.signers = .ok power)
    (h : aggregateQcNow v li voteData = .newQuorumCertificate qc) :
    qc.signedLedgerInfo.ledgerInfo = li.ledgerInfo ∧ qc.signedLedgerInfo.signers.Perm li.signers ∧
      v.quorumVotingPower ≤ v.votingPowerOf qc.signedLedgerInfo.signers := by
  unfold aggregateQcNow LedgerInfoWithVerifiedSignatures.aggregateSignatures at h
  cases hagg : v.aggregateSignatures li.signatures.entries with
  | error e => simp [hagg, bind, Except.bind] at h
  | ok agg =>
      simp only [hagg, bind, Except.bind, pure, Except.pure, VoteReceptionResult.newQuorumCertificate.injEq] at h
      subst h
      have perm : (v.signersAddresses agg).Perm li.signers :=
        lawful.signersAddresses_perm hagg (SortedStore.keys_nodup li.signatures)
      obtain ⟨rfl, enough⟩ := lawful.checkVotingPower_eq_ok hcheck
      exact ⟨rfl, perm, (ValidatorVerifier.votingPowerOf_perm perm) ▸ enough⟩

theorem processDelayedQc_cases (vote : Vote) :
    (∃ li power, pv.liDigestToVotes.get (hash vote.ledgerInfo) = some li ∧
      v.checkVotingPower li.signers = .ok power ∧
      pv.processDelayedQc hash v vote = aggregateQcNow v li vote.voteData) ∨
      ∃ e, pv.processDelayedQc hash v vote = .errorAddingVote e := by
  unfold processDelayedQc
  split
  · rename_i li found
    split
    · rename_i power hcheck
      exact .inl ⟨li, power, found, hcheck, rfl⟩
    · exact .inr ⟨_, rfl⟩
    · exact .inr ⟨_, rfl⟩
  · exact .inr ⟨_, rfl⟩

@[simp] theorem isEchoTimeout_processDelayedQc (vote : Vote) :
    (pv.processDelayedQc hash v vote).isEchoTimeout = false := by
  rcases processDelayedQc_cases vote with ⟨li, power, -, -, same⟩ | ⟨e, same⟩
  · rw [same, isEchoTimeout_aggregateQcNow]
  · rw [same]
    rfl

end Spec

end PendingVotes

end GravitySdk.Consensus
