/- The consensus data that safety rules read and sign.
   digest: Block infos, vote data, ledger infos, quorum and timeout
   certificates, blocks, votes and order votes of consensus-types, the
   persisted SafetyData, and the parts of the external aptos crates that
   safety rules calls, as parameters. -/

import Mathlib

set_option autoImplicit false
set_option relaxedAutoImplicit false

namespace GravitySdk.Consensus

/-- An account address of a validator. -/
abbrev Author := Nat

/-- A 32-byte hash. -/
abbrev HashValue := Nat

/-- `EpochState`: an epoch and the validator verifier of its validator set,
named by an index. -/
structure EpochState where
  epoch : Nat
  verifier : Nat
  deriving DecidableEq, Repr

/-- `BlockInfo`. -/
structure BlockInfo where
  epoch : Nat
  round : Nat
  id : HashValue
  executedStateId : HashValue
  version : Nat
  timestampUsecs : Nat
  nextEpochState : Option EpochState
  deriving DecidableEq, Repr

/-- `BlockInfo::empty()`: the commit info of a ledger info that commits nothing. -/
def BlockInfo.empty : BlockInfo := ⟨0, 0, 0, 0, 0, 0, none⟩

/-- `VoteData`: the block voted for and its parent. -/
structure VoteData where
  proposed : BlockInfo
  parent : BlockInfo
  deriving DecidableEq, Repr

/-- `LedgerInfo`: a commit info and the hash of the consensus data behind it. -/
structure LedgerInfo where
  commitInfo : BlockInfo
  consensusDataHash : HashValue
  deriving DecidableEq, Repr

/-- `LedgerInfoWithSignatures`, its aggregate signature given by its signers. -/
structure LedgerInfoWithSignatures where
  ledgerInfo : LedgerInfo
  signers : List Author
  deriving DecidableEq, Repr

/-- `LedgerInfoWithSignatures::commit_info`. -/
def LedgerInfoWithSignatures.commitInfo (li : LedgerInfoWithSignatures) : BlockInfo := li.ledgerInfo.commitInfo

/-- `QuorumCert`. -/
structure QuorumCert where
  voteData : VoteData
  signedLedgerInfo : LedgerInfoWithSignatures
  deriving DecidableEq, Repr

namespace QuorumCert

/-- `QuorumCert::certified_block`. -/
def certifiedBlock (qc : QuorumCert) : BlockInfo := qc.voteData.proposed

/-- `QuorumCert::parent_block`. -/
def parentBlock (qc : QuorumCert) : BlockInfo := qc.voteData.parent

/-- `QuorumCert::commit_info`: the block its ledger info commits. -/
def commitInfo (qc : QuorumCert) : BlockInfo := qc.signedLedgerInfo.ledgerInfo.commitInfo

end QuorumCert

/-- `WrappedLedgerInfo`: a ledger info with the vote data it was ordered with. -/
structure WrappedLedgerInfo where
  voteData : VoteData
  signedLedgerInfo : LedgerInfoWithSignatures
  deriving DecidableEq, Repr

/-- `WrappedLedgerInfo::commit_info`. -/
def WrappedLedgerInfo.commitInfo (w : WrappedLedgerInfo) : BlockInfo :=
  w.signedLedgerInfo.ledgerInfo.commitInfo

/-- `QuorumCert::into_wrapped_ledger_info`. -/
def QuorumCert.intoWrappedLedgerInfo (qc : QuorumCert) : WrappedLedgerInfo :=
  ⟨qc.voteData, qc.signedLedgerInfo⟩

/-- `BlockData`, with the payload and the failed authors left out. -/
structure BlockData where
  epoch : Nat
  round : Nat
  timestampUsecs : Nat
  quorumCert : QuorumCert
  author : Option Author
  deriving DecidableEq, Repr

/-- `Block`: its id (the hash of its data) and its data. -/
structure Block where
  id : HashValue
  blockData : BlockData
  deriving DecidableEq, Repr

namespace Block

def epoch (b : Block) : Nat := b.blockData.epoch

def round (b : Block) : Nat := b.blockData.round

def quorumCert (b : Block) : QuorumCert := b.blockData.quorumCert

/-- `Block::parent_id`: the block that its quorum certificate certifies. -/
def parentId (b : Block) : HashValue := b.quorumCert.certifiedBlock.id

/-- `Block::gen_block_info`. -/
def genBlockInfo (b : Block) (executedStateId : HashValue) (version : Nat)
    (nextEpochState : Option EpochState) : BlockInfo :=
  ⟨b.epoch, b.round, b.id, executedStateId, version, b.blockData.timestampUsecs, nextEpochState⟩

end Block

/-- `VoteProposal`. -/
structure VoteProposal where
  block : Block
  nextEpochState : Option EpochState
  decoupledExecution : Bool
  deriving DecidableEq, Repr

/-- `OrderVoteProposal`. -/
structure OrderVoteProposal where
  block : Block
  blockInfo : BlockInfo
  quorumCert : QuorumCert
  deriving DecidableEq, Repr

/-- `TwoChainTimeout`: a timeout of a round carrying the signer's highest QC. -/
structure TwoChainTimeout where
  epoch : Nat
  round : Nat
  quorumCert : QuorumCert
  deriving DecidableEq, Repr

/-- `TwoChainTimeout::hqc_round`. -/
def TwoChainTimeout.hqcRound (t : TwoChainTimeout) : Nat := t.quorumCert.certifiedBlock.round

/-- `TimeoutSigningRepr`: what a validator signs when it times out. -/
structure TimeoutSigningRepr where
  epoch : Nat
  round : Nat
  hqcRound : Nat
  deriving DecidableEq, Repr

/-- `TwoChainTimeout::signing_format`. -/
def TwoChainTimeout.signingFormat (t : TwoChainTimeout) : TimeoutSigningRepr :=
  ⟨t.epoch, t.round, t.hqcRound⟩

/-- `TwoChainTimeoutCertificate`: the highest timeout and, for each signer, the
QC round it signed. -/
structure TwoChainTimeoutCertificate where
  timeout : TwoChainTimeout
  signaturesWithRounds : List (Author × Nat)
  deriving DecidableEq, Repr

namespace TwoChainTimeoutCertificate

def epoch (tc : TwoChainTimeoutCertificate) : Nat := tc.timeout.epoch

def round (tc : TwoChainTimeoutCertificate) : Nat := tc.timeout.round

/-- `highest_hqc_round`: the QC round of the certificate's own timeout. -/
def highestHqcRound (tc : TwoChainTimeoutCertificate) : Nat := tc.timeout.hqcRound

end TwoChainTimeoutCertificate

/-- The messages a validator signs. -/
inductive SigningMessage where
  | ledgerInfo (li : LedgerInfo)
  | blockData (data : BlockData)
  | timeout (repr : TimeoutSigningRepr)
  deriving DecidableEq, Repr

/-- A BLS signature, written as its signer and the message it signs.  Signing
and checking signatures are the parameters `Aptos.sign` and
`ValidatorVerifier.verify`, so only the ideal verifier reads the two fields. -/
structure Signature where
  author : Author
  message : SigningMessage
  deriving DecidableEq, Repr

/-- `Vote`. -/
structure Vote where
  voteData : VoteData
  author : Author
  ledgerInfo : LedgerInfo
  signature : Signature
  twoChainTimeout : Option (TwoChainTimeout × Signature)
  deriving DecidableEq, Repr

namespace Vote

/-- `Vote::epoch`. -/
def epoch (v : Vote) : Nat := v.voteData.proposed.epoch

/-- The round voted for, `vote_data().proposed().round()`. -/
def round (v : Vote) : Nat := v.voteData.proposed.round

end Vote

/-- `OrderVote`. -/
structure OrderVote where
  author : Author
  ledgerInfo : LedgerInfo
  signature : Signature
  deriving DecidableEq, Repr

/-- `SafetyData`: what safety rules persist between calls. -/
structure SafetyData where
  epoch : Nat
  lastVotedRound : Nat
  preferredRound : Nat
  oneChainRound : Nat
  lastVote : Option Vote
  highestTimeoutRound : Nat
  deriving DecidableEq, Repr

/-- `Waypoint`: a version and the hash of the ledger info at it. -/
structure Waypoint where
  version : Nat
  value : HashValue
  deriving DecidableEq, Repr

/-- `EpochChangeProof`: the ledger infos of the epoch changes it proves. -/
structure EpochChangeProof where
  ledgerInfoWithSigs : List LedgerInfoWithSignatures
  deriving DecidableEq, Repr

/-- `ValidatorSigner`: the author whose key signs. -/
structure ValidatorSigner where
  author : Author
  deriving DecidableEq, Repr

/-- The parts of the external aptos crates (`aptos-types`, `aptos-crypto`)
that safety rules calls; their code is not in the repository, so they enter
the model as parameters.  A verifier is named by the index an `EpochState`
carries. -/
structure Aptos where
  /-- `CryptoHash::hash` of a `VoteData`. -/
  hashVoteData : VoteData → HashValue
  /-- `ACCUMULATOR_PLACEHOLDER_HASH`. -/
  accumulatorPlaceholderHash : HashValue
  /-- `LedgerInfoWithSignatures::verify_signatures`: a quorum of the verifier's
  voting power signed the ledger info. -/
  verifySignatures : Nat → LedgerInfoWithSignatures → Bool
  /-- `ValidatorVerifier::verify_aggregate_signatures` over the timeout messages
  of a timeout certificate. -/
  verifyTimeoutSignatures : Nat → TwoChainTimeoutCertificate → Bool
  /-- `Block::validate_signature`. -/
  validateBlockSignature : Nat → Block → Bool
  /-- The checks of `Block::verify_well_formed` beyond the rounds and epochs of
  the block and its parent: genesis, payload, failed authors, timestamps,
  `ends_epoch` and the id. -/
  wellFormedRest : Block → Bool
  /-- `EpochChangeProof::verify` against a waypoint: the last ledger info. -/
  verifyEpochChangeProof : EpochChangeProof → Waypoint → Option LedgerInfoWithSignatures
  /-- `Waypoint::new_epoch_boundary`. -/
  newEpochBoundary : LedgerInfo → Option Waypoint
  /-- `ValidatorVerifier::get_public_key` is defined for the author. -/
  inValidatorSet : Nat → Author → Bool
  /-- `BlockInfo::is_ordered_only`. -/
  isOrderedOnly : BlockInfo → Bool
  /-- `BlockInfo::match_ordered_only`. -/
  matchOrderedOnly : BlockInfo → BlockInfo → Bool
  /-- `ValidatorSigner::sign`. -/
  sign : ValidatorSigner → SigningMessage → Signature

end GravitySdk.Consensus
