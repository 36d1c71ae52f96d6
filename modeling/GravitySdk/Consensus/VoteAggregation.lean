/- Vote aggregation over whole runs.
   digest: What every reachable PendingVotes keeps (each signer of a digest is
   recorded with a vote for it, each timeout signer with the timeout it signed,
   and the partial certificate holds the highest of them), and what each reply
   certifies from there: QCs and TCs of distinct signers that hold the quorum,
   one echo per round, and TCs whose rounds are their signers' own. -/

import GravitySdk.Consensus.PendingVotes
import GravitySdk.Consensus.IdealVerifier

set_option autoImplicit false
set_option relaxedAutoImplicit false

namespace GravitySdk.Consensus.PendingVotes

open GravitySdk.Lib
open GravitySdk.Lib.Transition
open Timeout2Chain

variable {hash : LedgerInfo → HashValue} {v : ValidatorVerifier}

/-- What every reachable `PendingVotes` keeps. -/
structure Consistent (hash : LedgerInfo → HashValue) (pv : PendingVotes) : Prop where
  recordsOwn : ∀ author vote liDigest, pv.authorToVote.get author = some (vote, liDigest) →
    vote.author = author ∧ liDigest = hash vote.ledgerInfo
  digestsOwn : ∀ liDigest li, pv.liDigestToVotes.get liDigest = some li → hash li.ledgerInfo = liDigest
  signersRecorded : ∀ liDigest author signature, pv.signatureOf liDigest author = some signature →
    ∃ vote, pv.authorToVote.get author = some (vote, liDigest)
  timeoutSignersRecorded : ∀ p, pv.maybePartial2ChainTc = some p →
    ∀ author round signature, p.signatures.get author = some (round, signature) →
      ∃ vote liDigest timeout, pv.authorToVote.get author = some (vote, liDigest) ∧
        vote.twoChainTimeout = some (timeout, signature) ∧ timeout.hqcRound = round
  highest : ∀ p, pv.maybePartial2ChainTc = some p → p.HoldsHighest
  timeoutRecorded : ∀ p, pv.maybePartial2ChainTc = some p →
    ∃ author vote liDigest signature, pv.authorToVote.get author = some (vote, liDigest) ∧
      vote.twoChainTimeout = some (p.timeout, signature) ∧ (p.signatures.get author).isSome

theorem recorded_of_seenVote_none {pv : PendingVotes} {liDigest : HashValue} {vote previous : Vote}
    {previousLiDigest : HashValue} (h : pv.seenVote liDigest vote = none)
    (recorded : pv.authorToVote.get vote.author = some (previous, previousLiDigest)) :
    previousLiDigest = liDigest ∧ previous.twoChainTimeout = none := by
  rcases seenVote_eq_none h with absent | ⟨seen, hseen, -, notTimeout⟩
  · rw [absent] at recorded
    cases recorded
  · rw [hseen] at recorded
    cases recorded
    exact ⟨rfl, by simpa [Vote.isTimeout] using notTimeout⟩

namespace Consistent

variable {pv : PendingVotes}

theorem fresh (inv : Consistent hash pv) {liDigest : HashValue} {vote : Vote}
    (h : pv.seenVote liDigest vote = none) :
    ∀ p, pv.maybePartial2ChainTc = some p → p.signatures.get vote.author = none := by
  intro p hp
  cases hget : p.signatures.get vote.author with
  | none => rfl
  | some entry =>
      obtain ⟨round, signature⟩ := entry
      obtain ⟨previous, d, t, recorded, carries, -⟩ := inv.timeoutSignersRecorded p hp _ _ _ hget
      rw [(recorded_of_seenVote_none h recorded).2] at carries
      cases carries

theorem storeVote (inv : Consistent hash pv) {vote : Vote}
    (h : pv.seenVote (hash vote.ledgerInfo) vote = none) :
    Consistent hash (pv.storeVote (hash vote.ledgerInfo) vote).1 where
  recordsOwn := by
    intro a w d recorded
    rw [storeVote_authorToVote, KeyMap.get_insert] at recorded
    split at recorded
    · rename_i same
      cases recorded
      exact ⟨same.symm, rfl⟩
    · exact inv.recordsOwn a w d recorded
  digestsOwn := by
    intro d li stored
    rw [storeVote_liDigestToVotes, KeyMap.get_insert] at stored
    split at stored
    · rename_i same
      cases stored
      subst same
      rw [storeVote_ledgerInfo]
      cases hold : pv.liDigestToVotes.get (hash vote.ledgerInfo) with
      | none => rfl
      | some old => exact inv.digestsOwn _ old hold
    · exact inv.digestsOwn d li stored
  signersRecorded := by
    intro d a s signed
    rw [signatureOf_storeVote] at signed
    rw [storeVote_authorToVote, KeyMap.get_insert]
    by_cases author : a = vote.author
    · -- the author is recorded with the vote's digest, the only one it signed
      rw [if_pos author]
      by_cases digest : d = hash vote.ledgerInfo
      · exact ⟨vote, by rw [digest]⟩
      · rw [if_neg digest] at signed
        obtain ⟨w, recorded⟩ := inv.signersRecorded d a s signed
        subst author
        exact absurd (recorded_of_seenVote_none h recorded).1 digest
    · rw [if_neg author]
      by_cases digest : d = hash vote.ledgerInfo
      · rw [if_pos digest, get_storeVote_signatures, if_neg author] at signed
        subst digest
        exact inv.signersRecorded _ a s signed
      · rw [if_neg digest] at signed
        exact inv.signersRecorded d a s signed
  timeoutSignersRecorded := by
    intro p hp a r s signed
    rw [storeVote_maybePartial2ChainTc] at hp
    obtain ⟨w, d, t, recorded, carries, round⟩ := inv.timeoutSignersRecorded p hp a r s signed
    have other : a ≠ vote.author := by
      rintro rfl
      rw [inv.fresh h p hp] at signed
      cases signed
    refine ⟨w, d, t, ?_, carries, round⟩
    rw [storeVote_authorToVote, KeyMap.get_insert_ne _ _ other]
    exact recorded
  highest := inv.highest
  timeoutRecorded := by
    intro p hp
    obtain ⟨a, w, d, s, recorded, carries, signer⟩ := inv.timeoutRecorded p hp
    have other : a ≠ vote.author := by
      rintro rfl
      rw [inv.fresh h p hp] at signer
      cases signer
    refine ⟨a, w, d, s, ?_, carries, signer⟩
    rw [storeVote_authorToVote, KeyMap.get_insert_ne _ _ other]
    exact recorded

theorem addTimeout (inv : Consistent hash pv) {vote : Vote} {timeout : TwoChainTimeout}
    {signature : Signature} {power : Nat} {pv' : PendingVotes} {reply : VoteReceptionResult}
    (stored : pv.authorToVote.get vote.author = some (vote, hash vote.ledgerInfo))
    (carries : vote.twoChainTimeout = some (timeout, signature))
    (fresh : ∀ p, pv.maybePartial2ChainTc = some p → p.signatures.get vote.author = none)
    (h : pv.addTimeout v vote timeout signature power = some (pv', reply)) : Consistent hash pv' := by
  have unsigned : (pv.maybePartial2ChainTc.bind fun p => p.signatures.get vote.author) = none := by
    cases hp : pv.maybePartial2ChainTc with
    | none => rfl
    | some p => exact fresh p hp
  rw [addTimeout_state h]
  refine ⟨inv.recordsOwn, inv.digestsOwn, inv.signersRecorded, ?_, ?_, ?_⟩
  · intro p hp a r s signed
    cases hp
    rw [get_addToPartialTc] at signed
    by_cases author : a = vote.author
    · rw [if_pos author, unsigned, Option.getD_none] at signed
      cases signed
      subst author
      exact ⟨vote, _, timeout, stored, carries, rfl⟩
    · rw [if_neg author] at signed
      cases hold : pv.maybePartial2ChainTc with
      | none =>
          rw [hold] at signed
          cases signed
      | some old =>
          rw [hold, Option.bind_some] at signed
          exact inv.timeoutSignersRecorded old hold a r s signed
  · intro p hp
    cases hp
    unfold addToPartialTc
    cases hold : pv.maybePartial2ChainTc with
    | none => exact TwoChainTimeoutWithPartialSignatures.holdsHighest_new_add timeout vote.author signature
    | some old => exact (inv.highest old hold).add (fresh old hold)
  · intro p hp
    cases hp
    rcases addToPartialTc_timeout vote timeout signature with kept | ⟨old, hold, same⟩
    · -- the vote's timeout is kept, and its author signed it
      refine ⟨vote.author, vote, hash vote.ledgerInfo, signature, stored, by rw [kept]; exact carries, ?_⟩
      rw [get_addToPartialTc, if_pos rfl]
      rfl
    · obtain ⟨a, w, d, s, recorded, oldCarries, signer⟩ := inv.timeoutRecorded old hold
      have other : a ≠ vote.author := by
        rintro rfl
        rw [fresh old hold] at signer
        cases signer
      refine ⟨a, w, d, s, recorded, by rw [same]; exact oldCarries, ?_⟩
      rw [get_addToPartialTc, if_neg other, hold]
      exact signer

theorem insertVote (inv : Consistent hash pv) {vote : Vote} {pv' : PendingVotes}
    {reply : VoteReceptionResult} (h : pv.insertVote hash v vote = some (pv', reply)) :
    Consistent hash pv' := by
  rcases insertVote_eq_some h with ⟨-, rfl⟩ | ⟨unseen, quorum⟩
  · exact inv
  · have stored := inv.storeVote unseen
    rcases checkQuorum_eq_some quorum with
      ⟨-, -, rfl, -⟩ | ⟨_, _, -, (⟨-, rfl, -⟩ | ⟨timeout, signature, carries, timeoutPath⟩)⟩ | ⟨-, -, rfl, -⟩
    · exact stored
    · exact stored
    · refine stored.addTimeout ?_ carries ?_ timeoutPath
      · simp
      · intro p hp
        exact inv.fresh unseen p hp
    · exact stored

theorem step (inv : Consistent hash pv) {c : Call} {pv' : PendingVotes} {reply : VoteReceptionResult}
    (h : step hash v pv c = some (pv', reply)) : Consistent hash pv' := by
  cases c with
  | insertVote vote => exact inv.insertVote h
  | processDelayedQc vote =>
      cases h
      exact inv

end Consistent

section Replies

variable {pv pv' : PendingVotes} {c : Call} {reply : VoteReceptionResult}

theorem step_timeoutPath (h : step hash v pv c = some (pv', reply))
    (fromTimeout : (∃ tc, reply = .new2ChainTimeoutCertificate tc) ∨ reply.isEchoTimeout = true) :
    ∃ vote timeout signature power, c = .insertVote vote ∧
      pv.seenVote (hash vote.ledgerInfo) vote = none ∧ vote.twoChainTimeout = some (timeout, signature) ∧
      (pv.storeVote (hash vote.ledgerInfo) vote).1.addTimeout v vote timeout signature power = some (pv', reply) := by
  -- the other replies are neither
  have other : ∀ {r : VoteReceptionResult}, r.isEchoTimeout = false → (∀ tc, r ≠ .new2ChainTimeoutCertificate tc) →
      r = reply → False := by
    rintro r quiet notTc rfl
    rcases fromTimeout with ⟨tc, rfl⟩ | echoed
    · exact notTc tc rfl
    · rw [quiet] at echoed
      cases echoed
  cases c with
  | processDelayedQc vote =>
      simp only [step, Option.some.injEq, Prod.mk.injEq] at h
      obtain ⟨-, rfl⟩ := h
      refine (other (isEchoTimeout_processDelayedQc vote) (fun tc same => ?_) rfl).elim
      rcases processDelayedQc_cases vote with ⟨li, power, -, -, agg⟩ | ⟨e, agg⟩ <;> rw [agg] at same
      · rcases aggregateQcNow_cases li vote.voteData with ⟨qc, hq⟩ | ⟨e, hq⟩ <;>
          (rw [hq] at same; cases same)
      · cases same
  | insertVote vote =>
      rcases insertVote_eq_some h with ⟨seen, -⟩ | ⟨unseen, quorum⟩
      · exact (other (by rcases seenVote_eq_some seen with rfl | rfl <;> rfl)
          (by rcases seenVote_eq_some seen with rfl | rfl <;> simp) rfl).elim
      · rcases checkQuorum_eq_some quorum with
          ⟨_, -, -, rfl⟩ | ⟨_, _, -, (⟨-, -, rfl⟩ | ⟨timeout, signature, carries, timeoutPath⟩)⟩ | ⟨_, -, -, rfl⟩
        · refine (other (isEchoTimeout_aggregateQcNow _ _) (fun tc same => ?_) rfl).elim
          rcases aggregateQcNow_cases (pv.storeVote (hash vote.ledgerInfo) vote).2 vote.voteData with
            ⟨qc, hq⟩ | ⟨e, hq⟩ <;> (rw [hq] at same; cases same)
        · exact (other rfl (by simp) rfl).elim
        · exact ⟨vote, timeout, signature, _, rfl, unseen, carries, timeoutPath⟩
        · exact (other rfl (by simp) rfl).elim

theorem step_new2ChainTimeoutCertificate {tc : Timeout2Chain.TwoChainTimeoutCertificate}
    (h : step hash v pv c = some (pv', .new2ChainTimeoutCertificate tc)) :
    ∃ p tcPower, pv'.maybePartial2ChainTc = some p ∧ v.checkVotingPower p.signers = .ok tcPower ∧
      p.aggregateSignatures v = .ok tc := by
  obtain ⟨vote, timeout, signature, power, -, -, -, timeoutPath⟩ := step_timeoutPath h (.inl ⟨tc, rfl⟩)
  obtain ⟨⟨tcPower, hcheck⟩, hagg⟩ := addTimeout_new2ChainTimeoutCertificate timeoutPath
  exact ⟨_, tcPower, by rw [addTimeout_state timeoutPath], hcheck, hagg⟩

theorem step_echoTimeout_reply {votingPower : Nat} (h : step hash v pv c = some (pv', .echoTimeout votingPower)) :
    ∃ p expected f, pv'.maybePartial2ChainTc = some p ∧
      v.checkVotingPower p.signers = .error (.tooLittleVotingPower votingPower expected) ∧
      fPlusOne v = some f ∧ f ≤ votingPower := by
  obtain ⟨vote, timeout, signature, power, -, -, -, timeoutPath⟩ := step_timeoutPath h (.inr rfl)
  obtain ⟨-, ⟨expected, hcheck⟩, f, hf, enough⟩ := addTimeout_echoTimeout timeoutPath
  exact ⟨_, expected, f, by rw [addTimeout_state timeoutPath], hcheck, hf, enough⟩

theorem step_newQuorumCertificate {qc : QuorumCert}
    (h : step hash v pv c = some (pv', .newQuorumCertificate qc)) :
    ∃ li power, pv'.liDigestToVotes.get (hash c.vote.ledgerInfo) = some li ∧
      v.checkVotingPower li.signers = .ok power ∧ aggregateQcNow v li c.vote.voteData = .newQuorumCertificate qc := by
  cases c with
  | processDelayedQc vote =>
      simp only [step, Option.some.injEq, Prod.mk.injEq] at h
      obtain ⟨rfl, hq⟩ := h
      rcases processDelayedQc_cases vote with ⟨li, power, found, hcheck, same⟩ | ⟨e, same⟩
      · exact ⟨li, power, found, hcheck, same ▸ hq⟩
      · rw [same] at hq
        cases hq
  | insertVote vote =>
      rcases insertVote_eq_some h with ⟨seen, -⟩ | ⟨unseen, quorum⟩
      · rcases seenVote_eq_some seen with same | same <;> cases same
      · rcases checkQuorum_eq_some quorum with
          ⟨power, hcheck, rfl, hq⟩ | ⟨_, _, -, (⟨-, -, same⟩ | ⟨timeout, signature, -, timeoutPath⟩)⟩ | ⟨_, -, -, same⟩
        · exact ⟨_, power, by simp [Call.vote], hcheck, hq.symm⟩
        · cases same
        · exact absurd timeoutPath addTimeout_ne_newQuorumCertificate
        · cases same

end Replies

/-- What a reply certifies about the state it leaves: the signers of a QC are
distinct, hold the quorum and are recorded with votes for its ledger info; the
voters of a TC are distinct, hold the quorum and are recorded with timeout
votes; an echo reports the voting power of the timeout signers, at least
f + 1. -/
def Certified (hash : LedgerInfo → HashValue) (v : ValidatorVerifier) (pv : PendingVotes) :
    VoteReceptionResult → Prop
  | .newQuorumCertificate qc =>
      qc.signedLedgerInfo.signers.Nodup ∧
        v.quorumVotingPower ≤ v.votingPowerOf qc.signedLedgerInfo.signers ∧
        ∀ author ∈ qc.signedLedgerInfo.signers,
          ∃ vote, pv.authorToVote.get author = some (vote, hash qc.signedLedgerInfo.ledgerInfo)
  | .new2ChainTimeoutCertificate tc =>
      ((tc.getVotersAndRounds v).map Prod.fst).Nodup ∧
        v.quorumVotingPower ≤ v.votingPowerOf ((tc.getVotersAndRounds v).map Prod.fst) ∧
        ∀ author ∈ (tc.getVotersAndRounds v).map Prod.fst,
          ∃ vote liDigest timeout signature, pv.authorToVote.get author = some (vote, liDigest) ∧
            vote.twoChainTimeout = some (timeout, signature)
  | .echoTimeout votingPower =>
      ∃ p f, pv.maybePartial2ChainTc = some p ∧ votingPower = v.votingPowerOf p.signers ∧
        fPlusOne v = some f ∧ f ≤ votingPower
  | _ => True

namespace Consistent

variable {pv pv' : PendingVotes}

theorem certified_newQuorumCertificate (lawful : v.Lawful) (inv : Consistent hash pv) {liDigest : HashValue}
    {li : LedgerInfoWithVerifiedSignatures} {power : Nat} {voteData : VoteData} {qc : QuorumCert}
    (stored : pv.liDigestToVotes.get liDigest = some li) (hcheck : v.checkVotingPower li.signers = .ok power)
    (hq : aggregateQcNow v li voteData = .newQuorumCertificate qc) :
    Certified hash v pv (.newQuorumCertificate qc) := by
  obtain ⟨sameLi, perm, enough⟩ := aggregateQcNow_certified lawful hcheck hq
  have digest : hash qc.signedLedgerInfo.ledgerInfo = liDigest := sameLi ▸ inv.digestsOwn liDigest li stored
  refine ⟨perm.nodup_iff.mpr (SortedStore.keys_nodup li.signatures), enough, fun a ha => ?_⟩
  obtain ⟨s, hs⟩ := Option.isSome_iff_exists.mp (SortedStore.mem_keys_iff.mp (perm.subset ha))
  rw [digest]
  exact inv.signersRecorded liDigest a s (by simp [signatureOf, stored, hs])

theorem certified_new2ChainTimeoutCertificate (lawful : v.Lawful) (inv : Consistent hash pv)
    {p : TwoChainTimeoutWithPartialSignatures} {tcPower : Nat} {tc : Timeout2Chain.TwoChainTimeoutCertificate}
    (hp : pv.maybePartial2ChainTc = some p) (hcheck : v.checkVotingPower p.signers = .ok tcPower)
    (h : p.aggregateSignatures v = .ok tc) : Certified hash v pv (.new2ChainTimeoutCertificate tc) := by
  have perm := TwoChainTimeoutWithPartialSignatures.voters_perm lawful h
    (lawful.indexed_of_checkVotingPower_eq_ok hcheck)
  obtain ⟨rfl, enough⟩ := lawful.checkVotingPower_eq_ok hcheck
  refine ⟨perm.nodup_iff.mpr (SortedStore.keys_nodup p.signatures), (ValidatorVerifier.votingPowerOf_perm perm) ▸ enough,
    fun a ha => ?_⟩
  obtain ⟨⟨r, s⟩, hs⟩ := Option.isSome_iff_exists.mp (SortedStore.mem_keys_iff.mp (perm.subset ha))
  obtain ⟨w, d, t, recorded, carries, -⟩ := inv.timeoutSignersRecorded p hp a r s hs
  exact ⟨w, d, t, s, recorded, carries⟩

theorem certified (lawful : v.Lawful) (inv : Consistent hash pv) {c : Call} {reply : VoteReceptionResult}
    (h : PendingVotes.step hash v pv c = some (pv', reply)) : Certified hash v pv' reply := by
  have inv' := inv.step h
  cases reply
  case newQuorumCertificate qc =>
    obtain ⟨li, power, stored, hcheck, hq⟩ := step_newQuorumCertificate h
    exact inv'.certified_newQuorumCertificate lawful stored hcheck hq
  case new2ChainTimeoutCertificate tc =>
    obtain ⟨p, tcPower, hp, hcheck, hagg⟩ := step_new2ChainTimeoutCertificate h
    exact inv'.certified_new2ChainTimeoutCertificate lawful hp hcheck hagg
  case echoTimeout votingPower =>
    obtain ⟨p, expected, f, hp, hcheck, hf, enough⟩ := step_echoTimeout_reply h
    exact ⟨p, f, hp, (lawful.checkVotingPower_eq_tooLittle hcheck).1, hf, enough⟩
  all_goals trivial

end Consistent

section Rounds

variable {pv pv' : PendingVotes} {c : Call} {reply : VoteReceptionResult}

theorem step_authorToVote (h : step hash v pv c = some (pv', reply)) :
    pv'.authorToVote = pv.authorToVote ∨
      ∃ vote, c = .insertVote vote ∧
        pv'.authorToVote = pv.authorToVote.insert vote.author (vote, hash vote.ledgerInfo) := by
  cases c with
  | processDelayedQc vote =>
      simp only [step, Option.some.injEq, Prod.mk.injEq] at h
      obtain ⟨rfl, -⟩ := h
      exact .inl rfl
  | insertVote vote =>
      rcases insertVote_eq_some h with ⟨-, rfl⟩ | ⟨-, quorum⟩
      · exact .inl rfl
      · exact .inr ⟨vote, rfl, by rw [checkQuorum_authorToVote quorum, storeVote_authorToVote]⟩

theorem recorded_of_trace {allow : PendingVotes → Call → Prop} {evs : List (Call × VoteReceptionResult)}
    (run : Trace (step hash v) allow new evs pv) {author : Author} {vote : Vote} {liDigest : HashValue}
    (recorded : pv.authorToVote.get author = some (vote, liDigest)) : Call.insertVote vote ∈ evs.map Prod.fst := by
  refine Trace.invariant (fun s evs => ∀ a w d, s.authorToVote.get a = some (w, d) →
    Call.insertVote w ∈ evs.map Prod.fst) (by simp [new]) ?_ run author vote liDigest recorded
  intro s evs c r s' inserted _ h a w d rec
  rw [List.map_append, List.mem_append]
  rcases step_authorToVote h with same | ⟨vote, rfl, stored⟩
  · exact .inl (inserted a w d (same ▸ rec))
  · rw [stored, KeyMap.get_insert] at rec
    split at rec
    · cases rec
      exact .inr (List.mem_singleton.mpr rfl)
    · exact .inl (inserted a w d rec)

theorem step_records (h : step hash v pv c = some (pv', reply)) :
    (pv'.authorToVote = pv.authorToVote ∧ ∀ vote, c = .insertVote vote → reply.isRejection = true) ∨
      ∃ vote, c = .insertVote vote ∧ reply.isRejection = false ∧ pv.seenVote (hash vote.ledgerInfo) vote = none ∧
        pv'.authorToVote = pv.authorToVote.insert vote.author (vote, hash vote.ledgerInfo) := by
  cases c with
  | processDelayedQc vote =>
      simp only [step, Option.some.injEq, Prod.mk.injEq] at h
      obtain ⟨rfl, -⟩ := h
      exact .inl ⟨rfl, fun _ other => by cases other⟩
  | insertVote vote =>
      rcases insertVote_eq_some h with ⟨seen, rfl⟩ | ⟨unseen, quorum⟩
      · refine .inl ⟨rfl, fun _ _ => ?_⟩
        rcases seenVote_eq_some seen with rfl | rfl <;> rfl
      · refine .inr ⟨vote, rfl, checkQuorum_isRejection quorum, unseen, ?_⟩
        rw [checkQuorum_authorToVote quorum, storeVote_authorToVote]

theorem step_keeps_digest (h : step hash v pv c = some (pv', reply)) {author : Author} {vote : Vote}
    {liDigest : HashValue} (recorded : pv.authorToVote.get author = some (vote, liDigest)) :
    ∃ vote', pv'.authorToVote.get author = some (vote', liDigest) := by
  rcases step_records h with ⟨same, -⟩ | ⟨inserted, -, -, unseen, stored⟩
  · exact ⟨vote, same ▸ recorded⟩
  · rw [stored, KeyMap.get_insert]
    split
    · next same =>
        -- a vote past step 1 is for the digest its author is recorded with
        subst same
        rw [(recorded_of_seenVote_none unseen recorded).1]
        exact ⟨inserted, rfl⟩
    · exact ⟨vote, recorded⟩

/-- Every vote that a call of the run inserted and did not turn away is
recorded for its author under its digest, with a timeout when it carried
one. -/
def AcceptedRecorded (hash : LedgerInfo → HashValue) (evs : List (Call × VoteReceptionResult))
    (pv : PendingVotes) : Prop :=
  ∀ vote reply, (Call.insertVote vote, reply) ∈ evs → reply.isRejection = false →
    ∃ recorded, pv.authorToVote.get vote.author = some (recorded, hash vote.ledgerInfo) ∧
      (vote.isTimeout = true → recorded.isTimeout = true)

theorem AcceptedRecorded.step {evs : List (Call × VoteReceptionResult)} (acc : AcceptedRecorded hash evs pv)
    (h : PendingVotes.step hash v pv c = some (pv', reply)) : AcceptedRecorded hash (evs ++ [(c, reply)]) pv' := by
  intro w r called accepted
  rcases List.mem_append.mp called with old | new
  · obtain ⟨p, recorded, timeout⟩ := acc w r old accepted
    rcases step_records h with ⟨same, -⟩ | ⟨vote, -, -, unseen, stored⟩
    · exact ⟨p, same ▸ recorded, timeout⟩
    · rw [stored, KeyMap.get_insert]
      split
      · next same =>
          -- the author was recorded for this digest without a timeout, and the vote replaces it
          rw [same] at recorded
          obtain ⟨digest, none⟩ := recorded_of_seenVote_none unseen recorded
          refine ⟨vote, by rw [digest], fun carries => absurd (timeout carries) ?_⟩
          simp [Vote.isTimeout, none]
      · exact ⟨p, recorded, timeout⟩
  · obtain ⟨rfl, rfl⟩ := Prod.mk.inj (List.mem_singleton.mp new)
    rcases step_records h with ⟨-, rejected⟩ | ⟨vote, same, -, -, stored⟩
    · rw [rejected w rfl] at accepted
      cases accepted
    · cases same
      rw [stored, KeyMap.get_insert_self]
      exact ⟨w, rfl, id⟩

/-- The signers of every QC the run returned are recorded with votes for its
ledger info. -/
def QcSignersRecorded (hash : LedgerInfo → HashValue) (evs : List (Call × VoteReceptionResult))
    (pv : PendingVotes) : Prop :=
  ∀ c qc, (c, VoteReceptionResult.newQuorumCertificate qc) ∈ evs → ∀ author ∈ qc.signedLedgerInfo.signers,
    ∃ vote, pv.authorToVote.get author = some (vote, hash qc.signedLedgerInfo.ledgerInfo)

theorem QcSignersRecorded.step (lawful : v.Lawful) (inv : Consistent hash pv) {evs : List (Call × VoteReceptionResult)}
    (qcs : QcSignersRecorded hash evs pv) (h : PendingVotes.step hash v pv c = some (pv', reply)) :
    QcSignersRecorded hash (evs ++ [(c, reply)]) pv' := by
  intro c' qc returned author signer
  rcases List.mem_append.mp returned with old | new
  · obtain ⟨vote, recorded⟩ := qcs c' qc old author signer
    exact step_keeps_digest h recorded
  · obtain ⟨-, rfl⟩ := Prod.mk.inj (List.mem_singleton.mp new)
    exact (inv.certified lawful h).2.2 author signer

end Rounds

end GravitySdk.Consensus.PendingVotes
