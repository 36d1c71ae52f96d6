/- The validator verifier of aptos-types.
   digest: The operations consensus calls on the validator set of an epoch
   (voting power and the quorum check, validator indices, the aggregation of
   partial signatures, the signers an aggregate names and the checks of
   signatures), as parameters, with the laws the proofs use of them; and
   what follows from the laws: the signers of an aggregate are its distinct
   authors, each once, in the order of their indices. -/

import Mathlib
import GravitySdk.Consensus.Types

/-!
The crate is outside the repository, so a verifier enters the model as the
record of the operations that consensus calls on it, and
`ValidatorVerifier.Lawful` names what the proofs use of them: what aptos-types
documents for the quorum check, the validator indices and
`get_signers_addresses`, and that an aggregate of valid signatures verifies.
`IdealVerifier` builds a lawful verifier from a list of validators.
-/

set_option autoImplicit false
set_option relaxedAutoImplicit false

namespace GravitySdk.Consensus

/-- `VerifyError`, the variants that consensus meets here. -/
inductive VerifyError where
  | unknownAuthor
  | tooLittleVotingPower (votingPower expectedVotingPower : Nat)
  | emptySignature
  | failedToAggregateSignature
  deriving DecidableEq, Repr

/-- `AggregateSignature`: the validator indices set in its bitmask and the
signatures it combines. -/
structure AggregateSignature where
  validatorBitmask : List Nat
  sigs : List Signature
  deriving DecidableEq, Repr

/-- `ValidatorVerifier`: the operations consensus calls on it. -/
structure ValidatorVerifier where
  /-- `get_voting_power`: `none` outside the validator set. -/
  getVotingPower : Author → Option Nat
  /-- `address_to_validator_index`. -/
  addressToValidatorIndex : Author → Option Nat
  quorumVotingPower : Nat
  totalVotingPower : Nat
  /-- `check_voting_power` with `check_super_majority = true`, the only way the
  modelled code calls it. -/
  checkVotingPower : List Author → Except VerifyError Nat
  /-- `aggregate_signatures` of partial signatures by author. -/
  aggregateSignatures : List (Author × Signature) → Except VerifyError AggregateSignature
  /-- `AggregateSignature::get_signers_addresses` over
  `get_ordered_account_addresses_iter`, the only addresses it is given. -/
  signersAddresses : AggregateSignature → List Author
  /-- `verify_aggregate_signatures`: `Ok` is `true`. -/
  verifyAggregateSignatures : List SigningMessage → AggregateSignature → Bool
  /-- `verify` of one signature: `Ok` is `true`. -/
  verify : Author → SigningMessage → Signature → Bool

namespace ValidatorVerifier

variable (v : ValidatorVerifier)

/-- The voting power that a list of signers holds. -/
def votingPowerOf (authors : List Author) : Nat :=
  (authors.map fun author => (v.getVotingPower author).getD 0).sum

/-- The signers an aggregate names, with their index. -/
def signerEntries (sig : AggregateSignature) : List (Author × Nat) :=
  (v.signersAddresses sig).filterMap fun author => (v.addressToValidatorIndex author).map (author, ·)

/-- The laws of a verifier that the proofs use. -/
structure Lawful : Prop where
  /-- A passed quorum check reports the power its signers hold, at least the
  quorum. -/
  checkVotingPower_eq_ok : ∀ {authors : List Author} {power : Nat}, v.checkVotingPower authors = .ok power →
    power = v.votingPowerOf authors ∧ v.quorumVotingPower ≤ power
  /-- The signers of a passed check are validators, each with an index. -/
  indexed_of_checkVotingPower_eq_ok : ∀ {authors : List Author} {power : Nat},
    v.checkVotingPower authors = .ok power → ∀ author ∈ authors, (v.addressToValidatorIndex author).isSome
  /-- A check failed for too little power reports the power its signers hold,
  below the quorum. -/
  checkVotingPower_eq_tooLittle : ∀ {authors : List Author} {power expected : Nat},
    v.checkVotingPower authors = .error (.tooLittleVotingPower power expected) →
    power = v.votingPowerOf authors ∧ power < v.quorumVotingPower
  /-- One index names one validator. -/
  addressToValidatorIndex_inj : ∀ {author author' : Author} {index : Nat},
    v.addressToValidatorIndex author = some index → v.addressToValidatorIndex author' = some index →
    author = author'
  /-- An aggregation succeeds only on some signatures, all of validators. -/
  aggregateSignatures_eq_ok : ∀ {ps : List (Author × Signature)} {agg : AggregateSignature},
    v.aggregateSignatures ps = .ok agg → ps ≠ [] ∧ ∀ e ∈ ps, (v.addressToValidatorIndex e.1).isSome
  /-- The signers an aggregate names are the authors it aggregated. -/
  mem_signersAddresses : ∀ {ps : List (Author × Signature)} {agg : AggregateSignature},
    v.aggregateSignatures ps = .ok agg → ∀ author, author ∈ v.signersAddresses agg ↔ author ∈ ps.map Prod.fst
  /-- `get_signers_addresses` lists them in the order of their indices. -/
  signerEntries_sorted : ∀ {ps : List (Author × Signature)} {agg : AggregateSignature},
    v.aggregateSignatures ps = .ok agg → ((v.signerEntries agg).map Prod.snd).Pairwise (· < ·)
  /-- The aggregate of distinct authors' signatures that verify against their
  messages verifies against those messages, listed as its signers are. -/
  verifyAggregateSignatures_of_verify : ∀ {ps : List (Author × Signature)} {agg : AggregateSignature}
    (messageOf : Author → SigningMessage), (ps.map Prod.fst).Nodup → v.aggregateSignatures ps = .ok agg →
    (∀ e ∈ ps, v.verify e.1 (messageOf e.1) e.2 = true) →
    v.verifyAggregateSignatures ((v.signersAddresses agg).map messageOf) agg = true

variable {v}

theorem votingPowerOf_perm {authors authors' : List Author} (h : authors.Perm authors') :
    v.votingPowerOf authors = v.votingPowerOf authors' :=
  (h.map _).sum_eq

theorem mem_signerEntries_iff {sig : AggregateSignature} {author : Author} {index : Nat} :
    (author, index) ∈ v.signerEntries sig ↔
      author ∈ v.signersAddresses sig ∧ v.addressToValidatorIndex author = some index := by
  unfold signerEntries
  rw [List.mem_filterMap]
  constructor
  · rintro ⟨a, ha, found⟩
    obtain ⟨i, hi, heq⟩ := Option.map_eq_some_iff.mp found
    cases heq
    exact ⟨ha, hi⟩
  · rintro ⟨ha, found⟩
    exact ⟨author, ha, by simp [found]⟩

namespace Lawful

variable (lawful : v.Lawful)
include lawful

theorem signersAddresses_indexed {ps : List (Author × Signature)} {agg : AggregateSignature}
    (h : v.aggregateSignatures ps = .ok agg) :
    ∀ author ∈ v.signersAddresses agg, (v.addressToValidatorIndex author).isSome := by
  intro author signer
  obtain ⟨e, he, rfl⟩ := List.mem_map.mp ((lawful.mem_signersAddresses h author).mp signer)
  exact (lawful.aggregateSignatures_eq_ok h).2 e he

theorem signersAddresses_eq {ps : List (Author × Signature)} {agg : AggregateSignature}
    (h : v.aggregateSignatures ps = .ok agg) : v.signersAddresses agg = (v.signerEntries agg).map Prod.fst := by
  -- pairing each item of a list with an index that all of them have keeps the list
  have paired : ∀ l : List Author, (∀ a ∈ l, (v.addressToValidatorIndex a).isSome) →
      l = (l.filterMap fun a => (v.addressToValidatorIndex a).map (a, ·)).map Prod.fst := by
    intro l all
    induction l with
    | nil => rfl
    | cons a rest ih =>
        obtain ⟨i, hi⟩ := Option.isSome_iff_exists.mp (all a List.mem_cons_self)
        simp [hi, ← ih fun b hb => all b (List.mem_cons_of_mem _ hb)]
  exact paired _ (signersAddresses_indexed lawful h)

theorem mem_signerEntries {ps : List (Author × Signature)} {agg : AggregateSignature}
    (h : v.aggregateSignatures ps = .ok agg) {author : Author} {index : Nat} :
    (author, index) ∈ v.signerEntries agg ↔
      author ∈ ps.map Prod.fst ∧ v.addressToValidatorIndex author = some index := by
  rw [mem_signerEntries_iff, lawful.mem_signersAddresses h]

theorem signersAddresses_nodup {ps : List (Author × Signature)} {agg : AggregateSignature}
    (h : v.aggregateSignatures ps = .ok agg) : (v.signersAddresses agg).Nodup := by
  have indices : ((v.signerEntries agg).map Prod.snd).Nodup :=
    (lawful.signerEntries_sorted h).imp Nat.ne_of_lt
  -- an entry's author fixes its index, so distinct indices are distinct authors
  have sameIndex : ∀ x ∈ v.signerEntries agg, ∀ y ∈ v.signerEntries agg, x.1 = y.1 → x.2 = y.2 := by
    rintro ⟨a, i⟩ hx ⟨b, j⟩ hy (rfl : a = b)
    have hi := (mem_signerEntries_iff.mp hx).2
    rw [(mem_signerEntries_iff.mp hy).2] at hi
    exact (Option.some.inj hi).symm
  have injective := List.inj_on_of_nodup_map indices
  rw [signersAddresses_eq lawful h]
  exact indices.of_map _ |>.map_on fun x hx y hy same => injective hx hy (sameIndex x hx y hy same)

theorem signersAddresses_perm {ps : List (Author × Signature)} {agg : AggregateSignature}
    (h : v.aggregateSignatures ps = .ok agg) (nodup : (ps.map Prod.fst).Nodup) :
    (v.signersAddresses agg).Perm (ps.map Prod.fst) :=
  (List.perm_ext_iff_of_nodup (signersAddresses_nodup lawful h) nodup).mpr (lawful.mem_signersAddresses h)

end Lawful

end ValidatorVerifier

end GravitySdk.Consensus
