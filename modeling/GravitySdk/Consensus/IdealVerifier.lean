/- A lawful validator verifier.
   digest: The verifier of a list of validators in index order with their
   voting power and a quorum, under ideal signatures (a signature is its
   signer and message): the sum of voting power with its unknown-author
   error, the quorum check, indices as positions, the aggregate as the
   bitmask of the signers' indices with their signatures, and that it keeps
   every law of ValidatorVerifier.Lawful. -/

import Mathlib
import GravitySdk.Consensus.ValidatorVerifier
import GravitySdk.Lib.Except

/-!
The runs on fixed inputs need a verifier to run with; this one follows what
aptos-types documents, with a signature that verifies exactly when it is the
signer's own of the message.  Nothing but those runs uses it: every theorem
about the consensus code holds of any lawful verifier.
-/

set_option autoImplicit false
set_option relaxedAutoImplicit false

namespace GravitySdk.Consensus.IdealVerifier

variable (validatorInfos : List (Author × Nat)) (quorumVotingPower : Nat)

def getVotingPower (author : Author) : Option Nat := validatorInfos.lookup author

def orderedAddresses : List Author := validatorInfos.map Prod.fst

def addressToValidatorIndex (author : Author) : Option Nat := (orderedAddresses validatorInfos).idxOf? author

/-- The sum of the signers' voting power; an author outside the set is an
error. -/
def sumVotingPower : List Author → Except VerifyError Nat
  | [] => .ok 0
  | author :: rest =>
      match getVotingPower validatorInfos author with
      | none => .error .unknownAuthor
      | some power => (sumVotingPower rest).map (power + ·)

def checkVotingPower (authors : List Author) : Except VerifyError Nat := do
  let aggregatedVotingPower ← sumVotingPower validatorInfos authors
  if aggregatedVotingPower < quorumVotingPower then
    throw (.tooLittleVotingPower aggregatedVotingPower quorumVotingPower)
  else pure aggregatedVotingPower

def validatorIndex (author : Author) : Except VerifyError Nat :=
  match addressToValidatorIndex validatorInfos author with
  | some index => pure index
  | none => throw .unknownAuthor

/-- The bitmask of the signers' indices and their signatures; an unknown
signer is an error, and so is aggregating nothing. -/
def aggregateSignatures (partialSignatures : List (Author × Signature)) :
    Except VerifyError AggregateSignature := do
  let masks ← partialSignatures.mapM fun entry => validatorIndex validatorInfos entry.1
  if partialSignatures.isEmpty then throw .failedToAggregateSignature
  pure ⟨masks, partialSignatures.map Prod.snd⟩

/-- The validators whose bit is set, in index order. -/
def signersAddresses (sig : AggregateSignature) : List Author :=
  (orderedAddresses validatorInfos).zipIdx.filterMap fun entry =>
    if entry.2 ∈ sig.validatorBitmask then some entry.1 else none

/-- The validators whose bit is set, with their position. -/
def setEntries (sig : AggregateSignature) : List (Author × Nat) :=
  (orderedAddresses validatorInfos).zipIdx.filter fun entry => entry.2 ∈ sig.validatorBitmask

/-- One message per signer, and the aggregate combines each signer's
signature of its message. -/
def verifyAggregateSignatures (messages : List SigningMessage) (sig : AggregateSignature) : Bool :=
  (signersAddresses validatorInfos sig).length == messages.length &&
    decide (sig.sigs.Perm (((signersAddresses validatorInfos sig).zip messages).map fun p => ⟨p.1, p.2⟩))

/-- The author is a validator and the signature is its signature of the
message. -/
def verify (author : Author) (message : SigningMessage) (signature : Signature) : Bool :=
  (getVotingPower validatorInfos author).isSome && signature == ⟨author, message⟩

end IdealVerifier

/-- The ideal verifier of validators in index order with their voting power,
and a quorum. -/
def ValidatorVerifier.ideal (validatorInfos : List (Author × Nat)) (quorumVotingPower : Nat) :
    ValidatorVerifier where
  getVotingPower := IdealVerifier.getVotingPower validatorInfos
  addressToValidatorIndex := IdealVerifier.addressToValidatorIndex validatorInfos
  quorumVotingPower := quorumVotingPower
  totalVotingPower := (validatorInfos.map Prod.snd).sum
  checkVotingPower := IdealVerifier.checkVotingPower validatorInfos quorumVotingPower
  aggregateSignatures := IdealVerifier.aggregateSignatures validatorInfos
  signersAddresses := IdealVerifier.signersAddresses validatorInfos
  verifyAggregateSignatures := IdealVerifier.verifyAggregateSignatures validatorInfos
  verify := IdealVerifier.verify validatorInfos

namespace IdealVerifier

variable {validatorInfos : List (Author × Nat)} {quorumVotingPower : Nat}

theorem sumVotingPower_eq_ok {authors : List Author} {power : Nat}
    (h : sumVotingPower validatorInfos authors = .ok power) :
    power = (ValidatorVerifier.ideal validatorInfos quorumVotingPower).votingPowerOf authors := by
  induction authors generalizing power with
  | nil =>
      cases h
      rfl
  | cons author rest ih =>
      simp only [sumVotingPower] at h
      cases hp : getVotingPower validatorInfos author with
      | none => simp [hp] at h
      | some p =>
          cases hr : sumVotingPower validatorInfos rest with
          | error e => simp [hp, hr, Except.map] at h
          | ok q =>
              simp only [hp, hr, Except.map, Except.ok.injEq] at h
              simp [ValidatorVerifier.votingPowerOf, ValidatorVerifier.ideal, hp, ← h, ih hr]

theorem sumVotingPower_eq_error {authors : List Author} {e : VerifyError}
    (h : sumVotingPower validatorInfos authors = .error e) : e = .unknownAuthor := by
  induction authors with
  | nil => cases h
  | cons author rest ih =>
      simp only [sumVotingPower] at h
      cases hp : getVotingPower validatorInfos author with
      | none =>
          rw [hp] at h
          cases h
          rfl
      | some p =>
          cases hr : sumVotingPower validatorInfos rest with
          | error e' =>
              rw [hp, hr] at h
              cases h
              exact ih hr
          | ok q => simp [hp, hr, Except.map] at h

theorem known_of_sumVotingPower_eq_ok {authors : List Author} {power : Nat}
    (h : sumVotingPower validatorInfos authors = .ok power) :
    ∀ author ∈ authors, (getVotingPower validatorInfos author).isSome := by
  induction authors generalizing power with
  | nil => simp
  | cons author rest ih =>
      simp only [sumVotingPower] at h
      cases hp : getVotingPower validatorInfos author with
      | none => simp [hp] at h
      | some p =>
          cases hr : sumVotingPower validatorInfos rest with
          | error e => simp [hp, hr, Except.map] at h
          | ok q =>
              intro a ha
              rcases List.mem_cons.mp ha with rfl | ha
              · simp [hp]
              · exact ih hr a ha

theorem isSome_getVotingPower {author : Author} :
    (getVotingPower validatorInfos author).isSome ↔ author ∈ orderedAddresses validatorInfos := by
  rw [getVotingPower, List.lookup_isSome_iff, orderedAddresses, List.mem_map]
  constructor
  · rintro ⟨info, hinfo, same⟩
    exact ⟨info, hinfo, (beq_iff_eq.mp same).symm⟩
  · rintro ⟨info, hinfo, same⟩
    exact ⟨info, hinfo, beq_iff_eq.mpr same.symm⟩

theorem isSome_addressToValidatorIndex {author : Author} :
    (addressToValidatorIndex validatorInfos author).isSome ↔ author ∈ orderedAddresses validatorInfos :=
  List.isSome_idxOf?

theorem getElem?_of_addressToValidatorIndex {author : Author} {index : Nat}
    (h : addressToValidatorIndex validatorInfos author = some index) :
    (orderedAddresses validatorInfos)[index]? = some author := by
  obtain ⟨inRange, atIndex, -⟩ := List.idxOf?_eq_some_iff.mp h
  rw [List.getElem?_eq_getElem inRange, atIndex]

theorem validatorIndex_eq_ok {author : Author} {index : Nat} :
    validatorIndex validatorInfos author = .ok index ↔ addressToValidatorIndex validatorInfos author = some index := by
  unfold validatorIndex
  cases addressToValidatorIndex validatorInfos author <;> simp

theorem mem_masks {ps : List (Author × Signature)} {masks : List Nat}
    (h : (ps.mapM fun entry => validatorIndex validatorInfos entry.1) = .ok masks) :
    (∀ e ∈ ps, (addressToValidatorIndex validatorInfos e.1).isSome) ∧
      ∀ index, index ∈ masks ↔ ∃ e ∈ ps, addressToValidatorIndex validatorInfos e.1 = some index := by
  induction ps generalizing masks with
  | nil =>
      cases h
      simp
  | cons e rest ih =>
      simp only [List.mapM_cons, Lib.Except.bind_eq_ok, Lib.Except.pure_eq_ok] at h
      obtain ⟨first, hfirst, others, hothers, rfl⟩ := h
      rw [validatorIndex_eq_ok] at hfirst
      obtain ⟨known, mem⟩ := ih hothers
      refine ⟨fun x hx => ?_, fun index => ?_⟩
      · rcases List.mem_cons.mp hx with rfl | hx
        · simp [hfirst]
        · exact known x hx
      · simp [mem, hfirst, eq_comm]

theorem aggregateSignatures_eq_ok {ps : List (Author × Signature)} {agg : AggregateSignature}
    (h : aggregateSignatures validatorInfos ps = .ok agg) :
    ps ≠ [] ∧ (∀ e ∈ ps, (addressToValidatorIndex validatorInfos e.1).isSome) ∧ agg.sigs = ps.map Prod.snd ∧
      ∀ index, index ∈ agg.validatorBitmask ↔ ∃ e ∈ ps, addressToValidatorIndex validatorInfos e.1 = some index := by
  simp only [aggregateSignatures, Lib.Except.bind_eq_ok] at h
  obtain ⟨masks, hmasks, h⟩ := h
  by_cases empty : ps.isEmpty
  · simp [empty] at h
  · simp only [empty, if_false, Bool.false_eq_true, Lib.Except.pure_eq_ok] at h
    subst h
    exact ⟨by simpa using empty, (mem_masks hmasks).1, rfl, (mem_masks hmasks).2⟩

theorem signersAddresses_eq_setEntries (sig : AggregateSignature) :
    signersAddresses validatorInfos sig = (setEntries validatorInfos sig).map Prod.fst := by
  unfold signersAddresses setEntries
  induction (orderedAddresses validatorInfos).zipIdx with
  | nil => rfl
  | cons e rest ih =>
      by_cases set : e.2 ∈ sig.validatorBitmask <;> simp [set, ih]

theorem mem_setEntries {ps : List (Author × Signature)} {agg : AggregateSignature}
    (h : aggregateSignatures validatorInfos ps = .ok agg) {author : Author} {index : Nat} :
    (author, index) ∈ setEntries validatorInfos agg ↔
      author ∈ ps.map Prod.fst ∧ addressToValidatorIndex validatorInfos author = some index := by
  have bitmask := (aggregateSignatures_eq_ok h).2.2.2 index
  unfold setEntries
  rw [List.mem_filter, List.mem_zipIdx_iff_getElem?, decide_eq_true_iff, bitmask]
  constructor
  · rintro ⟨atIndex, e, he, found⟩
    -- the bit set for `e` sits at `e`'s position, which holds `author`
    have same : e.1 = author := by
      have := getElem?_of_addressToValidatorIndex found
      rw [atIndex] at this
      exact (Option.some.inj this).symm
    subst same
    exact ⟨List.mem_map.mpr ⟨e, he, rfl⟩, found⟩
  · rintro ⟨hmem, found⟩
    obtain ⟨e, he, rfl⟩ := List.mem_map.mp hmem
    exact ⟨getElem?_of_addressToValidatorIndex found, e, he, found⟩

theorem signerEntries_eq {ps : List (Author × Signature)} {agg : AggregateSignature}
    (h : aggregateSignatures validatorInfos ps = .ok agg) :
    (ValidatorVerifier.ideal validatorInfos quorumVotingPower).signerEntries agg = setEntries validatorInfos agg := by
  -- every position whose bit is set is the index of its validator
  have indexed : ∀ e ∈ (orderedAddresses validatorInfos).zipIdx, e.2 ∈ agg.validatorBitmask →
      addressToValidatorIndex validatorInfos e.1 = some e.2 := by
    rintro ⟨a, i⟩ he set
    have stored := (mem_setEntries h).mp (List.mem_filter.mpr ⟨he, decide_eq_true set⟩)
    exact stored.2
  have paired : ∀ L : List (Author × Nat), (∀ e ∈ L, e.2 ∈ agg.validatorBitmask →
      addressToValidatorIndex validatorInfos e.1 = some e.2) →
      (L.filterMap fun e => if e.2 ∈ agg.validatorBitmask then some e.1 else none).filterMap
        (fun a => (addressToValidatorIndex validatorInfos a).map (a, ·)) =
        L.filter fun e => e.2 ∈ agg.validatorBitmask := by
    intro L all
    induction L with
    | nil => rfl
    | cons e rest ih =>
        obtain ⟨a, i⟩ := e
        have rest' := ih fun x hx => all x (List.mem_cons_of_mem _ hx)
        by_cases set : i ∈ agg.validatorBitmask
        · simp [set, all (a, i) List.mem_cons_self set, rest']
        · simp [set, rest']
  exact paired _ indexed

theorem signersAddresses_perm {ps : List (Author × Signature)} {agg : AggregateSignature}
    (h : aggregateSignatures validatorInfos ps = .ok agg) (nodup : (ps.map Prod.fst).Nodup) :
    (signersAddresses validatorInfos agg).Perm (ps.map Prod.fst) := by
  rw [signersAddresses_eq_setEntries]
  have indicesNodup : ((orderedAddresses validatorInfos).zipIdx.map Prod.snd).Nodup := by
    rw [List.zipIdx_map_snd]
    exact List.nodup_range'
  have entriesNodup : (setEntries validatorInfos agg).Nodup :=
    ((List.filter_sublist.map Prod.snd).nodup indicesNodup).of_map _
  -- an author's entry is determined by the author: its index is the author's
  have oneIndex : ∀ x ∈ setEntries validatorInfos agg, ∀ y ∈ setEntries validatorInfos agg, x.1 = y.1 → x = y := by
    rintro ⟨a, i⟩ hx ⟨b, j⟩ hy (rfl : a = b)
    have hi := ((mem_setEntries h).mp hx).2
    rw [((mem_setEntries h).mp hy).2] at hi
    cases hi
    rfl
  refine (List.perm_ext_iff_of_nodup (List.Nodup.map_on oneIndex entriesNodup) nodup).mpr fun author => ?_
  constructor
  · intro hmem
    obtain ⟨⟨a, i⟩, he, rfl⟩ := List.mem_map.mp hmem
    exact ((mem_setEntries h).mp he).1
  · intro hmem
    obtain ⟨⟨a, s⟩, he, rfl⟩ := List.mem_map.mp hmem
    obtain ⟨index, found⟩ := Option.isSome_iff_exists.mp ((aggregateSignatures_eq_ok h).2.1 _ he)
    exact List.mem_map.mpr ⟨(a, index), (mem_setEntries h).mpr ⟨hmem, found⟩, rfl⟩

theorem checkVotingPower_eq_ok {authors : List Author} {power : Nat}
    (h : checkVotingPower validatorInfos quorumVotingPower authors = .ok power) :
    power = (ValidatorVerifier.ideal validatorInfos quorumVotingPower).votingPowerOf authors ∧
      quorumVotingPower ≤ power := by
  simp only [checkVotingPower, Lib.Except.bind_eq_ok] at h
  obtain ⟨sum, hsum, h⟩ := h
  split at h
  · cases h
  · rename_i enough
    cases h
    exact ⟨sumVotingPower_eq_ok hsum, Nat.not_lt.mp enough⟩

theorem checkVotingPower_eq_tooLittle {authors : List Author} {power expected : Nat}
    (h : checkVotingPower validatorInfos quorumVotingPower authors = .error (.tooLittleVotingPower power expected)) :
    power = (ValidatorVerifier.ideal validatorInfos quorumVotingPower).votingPowerOf authors ∧
      power < quorumVotingPower := by
  simp only [checkVotingPower, bind, Except.bind] at h
  cases hs : sumVotingPower validatorInfos authors with
  | error e =>
      rw [hs] at h
      cases h
      cases sumVotingPower_eq_error hs
  | ok q =>
      simp only [hs] at h
      split at h
      · rename_i short
        cases h
        exact ⟨sumVotingPower_eq_ok hs, short⟩
      · cases h

theorem lawful (validatorInfos : List (Author × Nat)) (quorumVotingPower : Nat) :
    (ValidatorVerifier.ideal validatorInfos quorumVotingPower).Lawful where
  checkVotingPower_eq_ok := checkVotingPower_eq_ok
  indexed_of_checkVotingPower_eq_ok := by
    intro authors power h author mem
    simp only [ValidatorVerifier.ideal, checkVotingPower, Lib.Except.bind_eq_ok] at h
    obtain ⟨sum, hsum, -⟩ := h
    exact isSome_addressToValidatorIndex.mpr
      (isSome_getVotingPower.mp (known_of_sumVotingPower_eq_ok hsum author mem))
  checkVotingPower_eq_tooLittle := checkVotingPower_eq_tooLittle
  addressToValidatorIndex_inj := by
    intro author author' index h h'
    have atIndex := getElem?_of_addressToValidatorIndex h
    rw [getElem?_of_addressToValidatorIndex h'] at atIndex
    exact (Option.some.inj atIndex).symm
  aggregateSignatures_eq_ok := fun h => ⟨(aggregateSignatures_eq_ok h).1, (aggregateSignatures_eq_ok h).2.1⟩
  mem_signersAddresses := by
    intro ps agg h author
    change author ∈ signersAddresses validatorInfos agg ↔ _
    rw [signersAddresses_eq_setEntries]
    constructor
    · intro hmem
      obtain ⟨⟨a, i⟩, he, rfl⟩ := List.mem_map.mp hmem
      exact ((mem_setEntries h).mp he).1
    · intro hmem
      obtain ⟨⟨a, s⟩, he, rfl⟩ := List.mem_map.mp hmem
      obtain ⟨index, found⟩ := Option.isSome_iff_exists.mp ((aggregateSignatures_eq_ok h).2.1 _ he)
      exact List.mem_map.mpr ⟨(a, index), (mem_setEntries h).mpr ⟨hmem, found⟩, rfl⟩
  signerEntries_sorted := by
    intro ps agg h
    rw [signerEntries_eq h]
    have all : ((orderedAddresses validatorInfos).zipIdx.map Prod.snd).Pairwise (· < ·) := by
      rw [List.zipIdx_map_snd]
      exact List.pairwise_lt_range'
    exact all.sublist (List.filter_sublist.map Prod.snd)
  verifyAggregateSignatures_of_verify := by
    intro ps agg messageOf nodup h valid
    change aggregateSignatures validatorInfos ps = .ok agg at h
    -- a partial signature that verifies is its author's of its message
    have own : ∀ e ∈ ps, e.2 = ⟨e.1, messageOf e.1⟩ := by
      intro e he
      have checked := valid e he
      simp only [ValidatorVerifier.ideal, verify, Bool.and_eq_true, beq_iff_eq] at checked
      exact checked.2
    have sigs : agg.sigs = (ps.map Prod.fst).map fun a => (⟨a, messageOf a⟩ : Signature) := by
      rw [(aggregateSignatures_eq_ok h).2.2.1, List.map_map]
      exact List.map_congr_left own
    have zipped : ∀ l : List Author,
        (l.zip (l.map messageOf)).map (fun p => (⟨p.1, p.2⟩ : Signature)) = l.map fun a => ⟨a, messageOf a⟩ := by
      intro l
      induction l with
      | nil => rfl
      | cons a rest ih => simp [ih]
    simp only [ValidatorVerifier.ideal, verifyAggregateSignatures, List.length_map, beq_self_eq_true,
      Bool.true_and, decide_eq_true_eq]
    rw [zipped, sigs]
    exact ((signersAddresses_perm h nodup).map _).symm
end IdealVerifier

end GravitySdk.Consensus
