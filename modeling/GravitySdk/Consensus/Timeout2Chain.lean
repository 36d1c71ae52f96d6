/- The 2-chain timeout certificate.
   digest: The partial signatures of a round's timeouts keyed by author, each
   with the QC round it signed, beside the highest timeout seen; their
   aggregation into a certificate whose rounds follow the validator index; and
   the certificate's verification, which rebuilds one message per signer. -/

import Mathlib
import GravitySdk.Consensus.ValidatorVerifier
import GravitySdk.Lib.Except
import GravitySdk.Lib.SortedStore

set_option autoImplicit false
set_option relaxedAutoImplicit false

namespace GravitySdk.Consensus.Timeout2Chain

open GravitySdk.Lib

/-- `PartialSignaturesWithRound`: for each signer, in address order, the QC
round it signed and its signature. -/
abbrev PartialSignaturesWithRound := SortedStore Author (Nat × Signature)

/-- `PartialSignaturesWithRound::add_signature`: an author's first signature
stays. -/
def addSignature (sigs : PartialSignaturesWithRound) (validator : Author) (round : Nat)
    (signature : Signature) : PartialSignaturesWithRound :=
  sigs.orInsert validator (round, signature)

/-- The signers that have a validator index, with that index, in address
order. -/
def indexedSignatures (sigs : PartialSignaturesWithRound) (indexOf : Author → Option Nat) :
    List (Nat × Author × Nat × Signature) :=
  sigs.entries.filterMap fun e => (indexOf e.1).map fun index => (index, e.1, e.2)

/-- The `index_to_rounds` map of `get_partial_sig_with_rounds`: the round of
each signer with a validator index, under that index. -/
def indexToRounds (sigs : PartialSignaturesWithRound) (indexOf : Author → Option Nat) :
    SortedStore Nat Nat :=
  SortedStore.empty.insertAll ((indexedSignatures sigs indexOf).map fun k => (k.1, k.2.2.1))

/-- `get_partial_sig_with_rounds`: the signatures of the signers with a
validator index, in address order, and their rounds in the order of that
index; the other signers are dropped. -/
def getPartialSigWithRounds (sigs : PartialSignaturesWithRound) (indexOf : Author → Option Nat) :
    List (Author × Signature) × List Nat :=
  ((indexedSignatures sigs indexOf).map fun k => (k.2.1, k.2.2.2),
    (indexToRounds sigs indexOf).entries.map Prod.snd)

/-- `AggregateSignatureWithRounds`: the aggregate and the rounds, the i-th
round for the i-th signer of the bitmask. -/
structure AggregateSignatureWithRounds where
  sig : AggregateSignature
  rounds : List Nat
  deriving DecidableEq, Repr

/-- `TwoChainTimeoutCertificate` as it goes on the wire. -/
structure TwoChainTimeoutCertificate where
  timeout : TwoChainTimeout
  signaturesWithRounds : AggregateSignatureWithRounds
  deriving DecidableEq, Repr

/-- `TwoChainTimeoutWithPartialSignatures`. -/
structure TwoChainTimeoutWithPartialSignatures where
  timeout : TwoChainTimeout
  signatures : PartialSignaturesWithRound

/-- `TwoChainTimeout::verify`, the check of its quorum certificate given: the
QC round is below the timeout's round. -/
def timeoutValid (qcValid : QuorumCert → Bool) (t : TwoChainTimeout) : Bool :=
  decide (t.hqcRound < t.round) && qcValid t.quorumCert

namespace TwoChainTimeoutWithPartialSignatures

def new (timeout : TwoChainTimeout) : TwoChainTimeoutWithPartialSignatures :=
  ⟨timeout, (SortedStore.empty : PartialSignaturesWithRound)⟩

/-- `signers`: the authors with a partial signature, in address order. -/
def signers (p : TwoChainTimeoutWithPartialSignatures) : List Author :=
  p.signatures.entries.map Prod.fst

/-- `add`: the timeout is replaced by one with a higher QC round, and the
author's round and signature are recorded unless it has some already. -/
def add (p : TwoChainTimeoutWithPartialSignatures) (author : Author) (timeout : TwoChainTimeout)
    (signature : Signature) : TwoChainTimeoutWithPartialSignatures :=
  let hqcRound := timeout.hqcRound
  { timeout := if timeout.hqcRound > p.timeout.hqcRound then timeout else p.timeout
    signatures := addSignature p.signatures author hqcRound signature }

/-- `aggregate_signatures`: the highest timeout with the aggregate of the
known signers and their rounds in index order. -/
def aggregateSignatures (p : TwoChainTimeoutWithPartialSignatures) (v : ValidatorVerifier) :
    Except VerifyError TwoChainTimeoutCertificate := do
  let (partialSig, orderedRounds) := getPartialSigWithRounds p.signatures v.addressToValidatorIndex
  let aggregatedSig ← v.aggregateSignatures partialSig
  pure ⟨p.timeout, ⟨aggregatedSig, orderedRounds⟩⟩

end TwoChainTimeoutWithPartialSignatures

namespace TwoChainTimeoutCertificate

def highestHqcRound (tc : TwoChainTimeoutCertificate) : Nat := tc.timeout.hqcRound

/-- `get_voters_and_rounds`: the signers of the bitmask in index order, each
with the round at its position. -/
def getVotersAndRounds (v : ValidatorVerifier) (tc : TwoChainTimeoutCertificate) : List (Author × Nat) :=
  (v.signersAddresses tc.signaturesWithRounds.sig).zip tc.signaturesWithRounds.rounds

/-- `TwoChainTimeoutCertificate::verify`: the highest timeout is valid, the
aggregate signs one timeout message per signer with the round paired with it,
and the highest of the rounds is the timeout's QC round. -/
def verify (v : ValidatorVerifier) (qcValid : QuorumCert → Bool) (tc : TwoChainTimeoutCertificate) : Bool :=
  let timeoutMessages := (tc.getVotersAndRounds v).map fun voter =>
    SigningMessage.timeout ⟨tc.timeout.epoch, tc.timeout.round, voter.2⟩
  timeoutValid qcValid tc.timeout &&
    v.verifyAggregateSignatures timeoutMessages tc.signaturesWithRounds.sig &&
    match tc.signaturesWithRounds.rounds.max? with
    | none => false
    | some signedHqc => tc.timeout.hqcRound == signedHqc

end TwoChainTimeoutCertificate

namespace TwoChainTimeoutWithPartialSignatures

@[simp] theorem timeout_add (p : TwoChainTimeoutWithPartialSignatures) (author : Author)
    (timeout : TwoChainTimeout) (signature : Signature) :
    (p.add author timeout signature).timeout =
      if p.timeout.hqcRound < timeout.hqcRound then timeout else p.timeout := rfl

@[simp] theorem get_add (p : TwoChainTimeoutWithPartialSignatures) (author : Author)
    (timeout : TwoChainTimeout) (signature : Signature) (author' : Author) :
    (p.add author timeout signature).signatures.get author' =
      if author' = author then some ((p.signatures.get author).getD (timeout.hqcRound, signature))
      else p.signatures.get author' :=
  SortedStore.get_orInsert _ _ _ _

/-- The timeout kept is the highest one signed: a signer signed its QC round,
and none signed a higher one. -/
structure HoldsHighest (p : TwoChainTimeoutWithPartialSignatures) : Prop where
  attained : ∃ author signature, p.signatures.get author = some (p.timeout.hqcRound, signature)
  bounded : ∀ author round signature, p.signatures.get author = some (round, signature) →
    round ≤ p.timeout.hqcRound

theorem holdsHighest_new_add (timeout : TwoChainTimeout) (author : Author) (signature : Signature) :
    ((new timeout).add author timeout signature).HoldsHighest := by
  constructor
  · exact ⟨author, signature, by simp [new]⟩
  · intro a round s ha
    by_cases same : a = author
    · simp [new, same] at ha
      simp [new, ha.1]
    · simp [new, same] at ha

theorem HoldsHighest.add {p : TwoChainTimeoutWithPartialSignatures} (high : p.HoldsHighest)
    {author : Author} {timeout : TwoChainTimeout} {signature : Signature}
    (fresh : p.signatures.get author = none) : (p.add author timeout signature).HoldsHighest := by
  by_cases higher : p.timeout.hqcRound < timeout.hqcRound
  · constructor
    · exact ⟨author, signature, by simp [fresh, higher]⟩
    · intro a round s ha
      rw [timeout_add, if_pos higher]
      rw [get_add] at ha
      by_cases same : a = author
      · simp only [same, if_true, fresh, Option.getD_none, Option.some.injEq, Prod.mk.injEq] at ha
        exact Nat.le_of_eq ha.1.symm
      · rw [if_neg same] at ha
        exact (high.bounded a round s ha).trans higher.le
  · constructor
    · obtain ⟨w, sw, hw⟩ := high.attained
      have other : w ≠ author := by
        rintro rfl
        rw [fresh] at hw
        cases hw
      exact ⟨w, sw, by simp [other, higher, hw]⟩
    · intro a round s ha
      rw [timeout_add, if_neg higher]
      rw [get_add] at ha
      by_cases same : a = author
      · simp only [same, if_true, fresh, Option.getD_none, Option.some.injEq, Prod.mk.injEq] at ha
        rw [← ha.1]
        exact Nat.le_of_not_lt higher
      · rw [if_neg same] at ha
        exact high.bounded a round s ha

end TwoChainTimeoutWithPartialSignatures

theorem exists_key_of_mem_zip {α β γ : Type} {l₁ : List (α × β)} {l₂ : List (β × γ)}
    (keys : l₁.map Prod.snd = l₂.map Prod.fst) {a : α} {c : γ}
    (hmem : (a, c) ∈ (l₁.map Prod.fst).zip (l₂.map Prod.snd)) : ∃ b, (a, b) ∈ l₁ ∧ (b, c) ∈ l₂ := by
  induction l₁ generalizing l₂ with
  | nil => simp at hmem
  | cons x rest ih =>
      cases l₂ with
      | nil => simp at keys
      | cons y rest₂ =>
          simp only [List.map_cons, List.cons.injEq] at keys
          rw [List.map_cons, List.map_cons, List.zip_cons_cons, List.mem_cons] at hmem
          rcases hmem with heq | hmem
          · obtain ⟨rfl, rfl⟩ := Prod.mk.inj heq
            refine ⟨x.2, by simp, ?_⟩
            rw [keys.1]
            exact List.mem_cons_self
          · obtain ⟨b, h₁, h₂⟩ := ih keys.2 hmem
            exact ⟨b, List.mem_cons_of_mem _ h₁, List.mem_cons_of_mem _ h₂⟩

theorem mem_indexedSignatures {sigs : PartialSignaturesWithRound} {indexOf : Author → Option Nat}
    {index : Nat} {author : Author} {entry : Nat × Signature} :
    (index, author, entry) ∈ indexedSignatures sigs indexOf ↔
      indexOf author = some index ∧ (author, entry) ∈ sigs.entries := by
  unfold indexedSignatures
  rw [List.mem_filterMap]
  constructor
  · rintro ⟨⟨a, e⟩, he, found⟩
    obtain ⟨i, hi, heq⟩ := Option.map_eq_some_iff.mp found
    cases heq
    exact ⟨hi, he⟩
  · rintro ⟨found, he⟩
    exact ⟨(author, entry), he, by simp [found]⟩

section Verifier

variable {v : ValidatorVerifier}

theorem indexedSignatures_nodup (sigs : PartialSignaturesWithRound) :
    (indexedSignatures sigs v.addressToValidatorIndex).Nodup := by
  have entriesNodup : sigs.entries.Nodup := (SortedStore.keys_nodup sigs).of_map _
  refine entriesNodup.filterMap fun e e' x he he' => ?_
  obtain ⟨i, -, rfl⟩ := Option.map_eq_some_iff.mp he
  obtain ⟨i', -, heq⟩ := Option.map_eq_some_iff.mp he'
  simp only [Prod.mk.injEq] at heq
  exact Prod.ext heq.2.1.symm heq.2.2.symm

theorem indexedSignatures_eq_of_author {sigs : PartialSignaturesWithRound}
    {x y : Nat × Author × Nat × Signature} (hx : x ∈ indexedSignatures sigs v.addressToValidatorIndex)
    (hy : y ∈ indexedSignatures sigs v.addressToValidatorIndex) (same : x.2.1 = y.2.1) : x = y := by
  obtain ⟨i, a, e⟩ := x
  obtain ⟨i', a', e'⟩ := y
  obtain ⟨found, stored⟩ := mem_indexedSignatures.mp hx
  obtain ⟨found', stored'⟩ := mem_indexedSignatures.mp hy
  change a = a' at same
  subst same
  rw [found] at found'
  cases found'
  cases SortedStore.entry_eq_of_key_eq stored stored' rfl
  rfl

theorem indexedSignatures_indices_nodup (lawful : v.Lawful) (sigs : PartialSignaturesWithRound) :
    ((indexedSignatures sigs v.addressToValidatorIndex).map Prod.fst).Nodup := by
  refine (indexedSignatures_nodup sigs).map_on fun x hx y hy same => ?_
  refine indexedSignatures_eq_of_author hx hy ?_
  exact lawful.addressToValidatorIndex_inj (mem_indexedSignatures.mp hx).1
    (same ▸ (mem_indexedSignatures.mp hy).1)

theorem partialSig_authors_nodup (sigs : PartialSignaturesWithRound) :
    ((getPartialSigWithRounds sigs v.addressToValidatorIndex).1.map Prod.fst).Nodup := by
  simp only [getPartialSigWithRounds, List.map_map, Function.comp_def]
  exact (indexedSignatures_nodup sigs).map_on fun x hx y hy same => indexedSignatures_eq_of_author hx hy same

theorem get_indexToRounds (lawful : v.Lawful) (sigs : PartialSignaturesWithRound) (index round : Nat) :
    (indexToRounds sigs v.addressToValidatorIndex).get index = some round ↔
      ∃ author signature, v.addressToValidatorIndex author = some index ∧
        sigs.get author = some (round, signature) := by
  have nodup : (((indexedSignatures sigs v.addressToValidatorIndex).map
      fun k => (k.1, k.2.2.1)).map Prod.fst).Nodup := by
    rw [List.map_map]
    exact indexedSignatures_indices_nodup lawful sigs
  unfold indexToRounds
  rw [SortedStore.get_insertAll nodup, SortedStore.get_empty]
  simp only [reduceCtorEq, and_false, or_false, List.mem_map, Prod.mk.injEq]
  constructor
  · rintro ⟨⟨i, a, r, s⟩, hmem, rfl, rfl⟩
    obtain ⟨found, hmem⟩ := mem_indexedSignatures.mp hmem
    exact ⟨a, s, found, SortedStore.get_eq_some_iff.mpr hmem⟩
  · rintro ⟨a, s, found, hs⟩
    exact ⟨⟨index, a, round, s⟩,
      mem_indexedSignatures.mpr ⟨found, SortedStore.get_eq_some_iff.mp hs⟩, rfl, rfl⟩

theorem mem_partialSig {sigs : PartialSignaturesWithRound} {author : Author} :
    author ∈ (getPartialSigWithRounds sigs v.addressToValidatorIndex).1.map Prod.fst ↔
      ∃ index round signature, v.addressToValidatorIndex author = some index ∧
        sigs.get author = some (round, signature) := by
  simp only [getPartialSigWithRounds, List.map_map, List.mem_map, Function.comp_def]
  constructor
  · rintro ⟨⟨i, a, r, s⟩, hmem, rfl⟩
    obtain ⟨found, hmem⟩ := mem_indexedSignatures.mp hmem
    exact ⟨i, r, s, found, SortedStore.get_eq_some_iff.mpr hmem⟩
  · rintro ⟨i, r, s, found, hs⟩
    exact ⟨⟨i, author, r, s⟩, mem_indexedSignatures.mpr ⟨found, SortedStore.get_eq_some_iff.mp hs⟩, rfl⟩


theorem partialSig_authors_perm {sigs : PartialSignaturesWithRound}
    (known : ∀ author ∈ sigs.entries.map Prod.fst, (v.addressToValidatorIndex author).isSome) :
    ((getPartialSigWithRounds sigs v.addressToValidatorIndex).1.map Prod.fst).Perm (sigs.entries.map Prod.fst) := by
  refine (List.perm_ext_iff_of_nodup (partialSig_authors_nodup sigs) (SortedStore.keys_nodup sigs)).mpr
    fun author => ?_
  rw [mem_partialSig, SortedStore.mem_keys_iff]
  constructor
  · rintro ⟨-, round, signature, -, hs⟩
    simp [hs]
  · intro signed
    obtain ⟨index, found⟩ := Option.isSome_iff_exists.mp (known author (SortedStore.mem_keys_iff.mpr signed))
    obtain ⟨⟨round, signature⟩, hs⟩ := Option.isSome_iff_exists.mp signed
    exact ⟨index, round, signature, found, hs⟩

namespace TwoChainTimeoutWithPartialSignatures

theorem aggregateSignatures_eq_ok {p : TwoChainTimeoutWithPartialSignatures}
    {tc : TwoChainTimeoutCertificate} (h : p.aggregateSignatures v = .ok tc) :
    ∃ agg, v.aggregateSignatures (getPartialSigWithRounds p.signatures v.addressToValidatorIndex).1 = .ok agg ∧
      tc = ⟨p.timeout, ⟨agg, (indexToRounds p.signatures v.addressToValidatorIndex).entries.map Prod.snd⟩⟩ := by
  simp only [aggregateSignatures, getPartialSigWithRounds, Lib.Except.bind_eq_ok,
    Lib.Except.pure_eq_ok] at h
  obtain ⟨agg, hagg, rfl⟩ := h
  exact ⟨agg, hagg, rfl⟩

theorem signerEntries_indices (lawful : v.Lawful) {p : TwoChainTimeoutWithPartialSignatures}
    {agg : AggregateSignature}
    (hagg : v.aggregateSignatures (getPartialSigWithRounds p.signatures v.addressToValidatorIndex).1 = .ok agg) :
    (v.signerEntries agg).map Prod.snd =
      (indexToRounds p.signatures v.addressToValidatorIndex).entries.map Prod.fst := by
  refine List.Pairwise.eq_of_mem_iff (lawful.signerEntries_sorted hagg) (SortedStore.keys_sorted _) fun index => ?_
  rw [SortedStore.mem_keys_iff, Option.isSome_iff_exists]
  constructor
  · intro hmem
    obtain ⟨⟨a, i⟩, he, rfl⟩ := List.mem_map.mp hmem
    obtain ⟨signed, found⟩ := (lawful.mem_signerEntries hagg).mp he
    obtain ⟨i', r, s, -, hs⟩ := mem_partialSig.mp signed
    exact ⟨r, (get_indexToRounds lawful _ _ _).mpr ⟨a, s, found, hs⟩⟩
  · rintro ⟨r, hr⟩
    obtain ⟨a, s, found, hs⟩ := (get_indexToRounds lawful _ _ _).mp hr
    have signed := mem_partialSig.mpr ⟨index, r, s, found, hs⟩
    exact List.mem_map.mpr ⟨(a, index), (lawful.mem_signerEntries hagg).mpr ⟨signed, found⟩, rfl⟩

theorem length_signers_eq_rounds (lawful : v.Lawful) {p : TwoChainTimeoutWithPartialSignatures}
    {agg : AggregateSignature}
    (hagg : v.aggregateSignatures (getPartialSigWithRounds p.signatures v.addressToValidatorIndex).1 = .ok agg) :
    (v.signersAddresses agg).length =
      ((indexToRounds p.signatures v.addressToValidatorIndex).entries.map Prod.snd).length := by
  have same := congrArg List.length (signerEntries_indices lawful hagg)
  simp only [List.length_map] at same
  rw [lawful.signersAddresses_eq hagg, List.length_map, List.length_map, same]

variable {p : TwoChainTimeoutWithPartialSignatures} {tc : TwoChainTimeoutCertificate}

theorem mem_getVotersAndRounds (lawful : v.Lawful) (h : p.aggregateSignatures v = .ok tc) {author : Author}
    {round : Nat} (hmem : (author, round) ∈ tc.getVotersAndRounds v) :
    ∃ signature, p.signatures.get author = some (round, signature) := by
  obtain ⟨agg, hagg, rfl⟩ := aggregateSignatures_eq_ok h
  rw [TwoChainTimeoutCertificate.getVotersAndRounds, lawful.signersAddresses_eq hagg] at hmem
  obtain ⟨index, hentry, hround⟩ := exists_key_of_mem_zip (signerEntries_indices lawful hagg) hmem
  obtain ⟨a, s, found, hs⟩ := (get_indexToRounds lawful _ _ _).mp (SortedStore.get_eq_some_iff.mpr hround)
  -- the voter and the signer of this round sit at one index
  have same : a = author := lawful.addressToValidatorIndex_inj found ((lawful.mem_signerEntries hagg).mp hentry).2
  exact ⟨s, same ▸ hs⟩

theorem getVotersAndRounds_map_fst (lawful : v.Lawful) (h : p.aggregateSignatures v = .ok tc) :
    (tc.getVotersAndRounds v).map Prod.fst = v.signersAddresses tc.signaturesWithRounds.sig := by
  obtain ⟨agg, hagg, rfl⟩ := aggregateSignatures_eq_ok h
  exact List.map_fst_zip (length_signers_eq_rounds lawful hagg).le

/-- The round each author signed, zero for the others. -/
def roundOf (p : TwoChainTimeoutWithPartialSignatures) (author : Author) : Nat :=
  ((p.signatures.get author).map Prod.fst).getD 0

theorem getVotersAndRounds_eq (lawful : v.Lawful) (h : p.aggregateSignatures v = .ok tc) :
    tc.getVotersAndRounds v = (v.signersAddresses tc.signaturesWithRounds.sig).map fun a => (a, p.roundOf a) := by
  rw [← getVotersAndRounds_map_fst lawful h, List.map_map]
  symm
  refine (List.map_congr_left fun x hx => ?_).trans (List.map_id _)
  obtain ⟨s, hs⟩ := mem_getVotersAndRounds lawful h hx
  simp [roundOf, hs]

/-- The voters of an aggregated certificate, each with its round, are the
known signers with theirs, each once. -/
theorem getVotersAndRounds_perm (lawful : v.Lawful) (h : p.aggregateSignatures v = .ok tc) :
    (tc.getVotersAndRounds v).Perm
      ((indexedSignatures p.signatures v.addressToValidatorIndex).map fun k => (k.2.1, k.2.2.1)) := by
  -- both lists are their authors, each with the round it signed
  have signers : (indexedSignatures p.signatures v.addressToValidatorIndex).map (fun k => (k.2.1, k.2.2.1)) =
      ((getPartialSigWithRounds p.signatures v.addressToValidatorIndex).1.map Prod.fst).map
        fun a => (a, p.roundOf a) := by
    simp only [getPartialSigWithRounds, List.map_map]
    refine List.map_congr_left fun k hk => ?_
    obtain ⟨i, a, r, s⟩ := k
    obtain ⟨-, stored⟩ := mem_indexedSignatures.mp hk
    simp [roundOf, SortedStore.get_eq_some_iff.mpr stored]
  obtain ⟨agg, hagg, htc⟩ := aggregateSignatures_eq_ok h
  rw [getVotersAndRounds_eq lawful h, signers, htc]
  exact (lawful.signersAddresses_perm hagg (partialSig_authors_nodup p.signatures)).map _


theorem voters_perm (lawful : v.Lawful) (h : p.aggregateSignatures v = .ok tc)
    (known : ∀ author ∈ p.signers, (v.addressToValidatorIndex author).isSome) :
    ((tc.getVotersAndRounds v).map Prod.fst).Perm p.signers := by
  rw [getVotersAndRounds_map_fst lawful h]
  obtain ⟨agg, hagg, rfl⟩ := aggregateSignatures_eq_ok h
  exact (lawful.signersAddresses_perm hagg (partialSig_authors_nodup p.signatures)).trans
    (partialSig_authors_perm known)

end TwoChainTimeoutWithPartialSignatures

end Verifier

end GravitySdk.Consensus.Timeout2Chain
