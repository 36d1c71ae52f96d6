/- The safety rules of consensus/safety-rules, one function per entry point.
   digest: PersistentSafetyStorage with its SafetyData cache and the storage
   write that may fail, and the guarded calls of SafetyRules: each reads the
   SafetyData, checks and updates a local copy, and persists it on some paths;
   the state is returned with the result because some calls fail after a
   write. -/

import GravitySdk.Consensus.Types

set_option autoImplicit false
set_option relaxedAutoImplicit false

namespace GravitySdk.Consensus

/-- `safety_rules::Error`, without the texts of errors raised by external
crates. -/
inductive Error where
  | incorrectEpoch (epoch expected : Nat)
  | incorrectRound (round : Nat)
  | incorrectLastVotedRound (round lastVotedRound : Nat)
  | incorrectPreferredRound (round preferredRound : Nat)
  | invalidEpochChangeProof
  | internalError
  | invalidLedgerInfo
  | invalidProposal (reason : String)
  | invalidQuorumCertificate
  | notInitialized (what : String)
  | notSafeForOrderVote (round highestTimeoutRound : Nat)
  | secureStorageMissingDataError
  | secureStorageUnexpectedError
  | validatorKeyNotFound
  | validatorNotInSet (author : Author)
  | notSafeToVote (round qcRound tcRound hqcRound : Nat)
  | notSafeToTimeout (round qcRound tcRound oneChainRound : Nat)
  | invalidTimeoutCertificate
  | inconsistentExecutionResult
  | invalidOrderedLedgerInfo
  | waypointOutOfDate (version newVersion currentEpoch providedEpoch : Nat)
  | invalidTimeout
  | invalidOneChainQuorumCertificate (qcId blockId : HashValue)
  deriving DecidableEq, Repr

/-- `u64::MAX`, the largest round. -/
def u64Max : Nat := 2 ^ 64 - 1

/-- `next_round`: `round + 1`, or `IncorrectRound` when it wraps. -/
def nextRound (round : Nat) : Except Error Nat :=
  if round < u64Max then .ok (round + 1) else .error (.incorrectRound round)

/-- What the secure storage does with a write: it succeeds, it fails before
writing, or it reports a failure after the value was written. -/
inductive WriteOutcome where
  | ok
  | failed
  | failedAfterWrite
  deriving DecidableEq, Repr

/-- `PersistentSafetyStorage`: the cache switch, the cached SafetyData, and the
entries of the internal store that safety rules uses. -/
structure PersistentSafetyStorage where
  enableCachedSafetyData : Bool
  cachedSafetyData : Option SafetyData
  safetyDataStore : Option SafetyData
  waypointStore : Option Waypoint
  author : Author
  deriving DecidableEq, Repr

namespace PersistentSafetyStorage

/-- `PersistentSafetyStorage::safety_data`: the cached copy, or a read of the
store that fills the cache. -/
def safetyData (p : PersistentSafetyStorage) : Except Error (SafetyData × PersistentSafetyStorage) :=
  if !p.enableCachedSafetyData then
    match p.safetyDataStore with
    | some data => .ok (data, p)
    | none => .error .secureStorageMissingDataError
  else
    match p.cachedSafetyData with
    | some data => .ok (data, p)
    | none =>
        match p.safetyDataStore with
        | some data => .ok (data, { p with cachedSafetyData := some data })
        | none => .error .secureStorageMissingDataError

/-- `PersistentSafetyStorage::set_safety_data`: on success the store and the
cache hold the data; on a failure the cache is dropped. -/
def setSafetyData (p : PersistentSafetyStorage) (data : SafetyData) :
    WriteOutcome → PersistentSafetyStorage × Except Error Unit
  | .ok => ({ p with safetyDataStore := some data, cachedSafetyData := some data }, .ok ())
  | .failed => ({ p with cachedSafetyData := none }, .error .secureStorageUnexpectedError)
  | .failedAfterWrite =>
      ({ p with safetyDataStore := some data, cachedSafetyData := none },
        .error .secureStorageUnexpectedError)

/-- `PersistentSafetyStorage::waypoint`. -/
def waypoint (p : PersistentSafetyStorage) : Except Error Waypoint :=
  match p.waypointStore with
  | some w => .ok w
  | none => .error .secureStorageMissingDataError

/-- `PersistentSafetyStorage::set_waypoint`. -/
def setWaypoint (p : PersistentSafetyStorage) (w : Waypoint) :
    WriteOutcome → PersistentSafetyStorage × Except Error Unit
  | .ok => ({ p with waypointStore := some w }, .ok ())
  | .failed => (p, .error .secureStorageUnexpectedError)
  | .failedAfterWrite => ({ p with waypointStore := some w }, .error .secureStorageUnexpectedError)

/-- The waypoint write of `guarded_initialize`: only a newer waypoint is
written. -/
def advanceWaypoint (p : PersistentSafetyStorage) (waypoint newWaypoint : Waypoint) (write : WriteOutcome) :
    PersistentSafetyStorage × Except Error Unit :=
  if newWaypoint.version > waypoint.version then p.setWaypoint newWaypoint write else (p, .ok ())

/-- The SafetyData write of `guarded_initialize`: an epoch newer than the
current one starts from fresh SafetyData. -/
def startEpoch (p : PersistentSafetyStorage) (currentEpoch epoch : Nat) (write : WriteOutcome) :
    PersistentSafetyStorage × Except Error Unit :=
  if currentEpoch < epoch then p.setSafetyData ⟨epoch, 0, 0, 0, none, 0⟩ write else (p, .ok ())

/-- `PersistentSafetyStorage::initialize`: a fresh store in epoch 1. -/
def initializeFresh (author : Author) (waypoint : Waypoint) (enableCachedSafetyData : Bool) :
    PersistentSafetyStorage :=
  let data : SafetyData := ⟨1, 0, 0, 0, none, 0⟩
  { enableCachedSafetyData := enableCachedSafetyData
    cachedSafetyData := some data
    safetyDataStore := some data
    waypointStore := some waypoint
    author := author }

end PersistentSafetyStorage

/-- `SafetyRules`. -/
structure SafetyRules where
  persistentStorage : PersistentSafetyStorage
  validatorSigner : Option ValidatorSigner
  epochState : Option EpochState
  deriving DecidableEq, Repr

namespace SafetyRules

/-- `SafetyRules::new`. -/
def new (persistentStorage : PersistentSafetyStorage) : SafetyRules :=
  ⟨persistentStorage, none, none⟩

section Checks

variable (a : Aptos)

/-- `SafetyRules::signer`. -/
def signer (sr : SafetyRules) : Except Error ValidatorSigner :=
  match sr.validatorSigner with
  | some s => .ok s
  | none => .error (.notInitialized "validator_signer")

/-- `SafetyRules::epoch_state`. -/
def epochState? (sr : SafetyRules) : Except Error EpochState :=
  match sr.epochState with
  | some es => .ok es
  | none => .error (.notInitialized "epoch_state")

/-- `SafetyRules::verify_epoch`. -/
def verifyEpoch (epoch : Nat) (safetyData : SafetyData) : Except Error Unit :=
  if epoch ≠ safetyData.epoch then .error (.incorrectEpoch epoch safetyData.epoch) else .ok ()

/-- `VoteData::verify`. -/
def voteDataWellFormed (vd : VoteData) : Bool :=
  vd.parent.epoch = vd.proposed.epoch && vd.parent.round < vd.proposed.round &&
    vd.parent.timestampUsecs ≤ vd.proposed.timestampUsecs &&
    (vd.proposed.version = 0 || vd.parent.version ≤ vd.proposed.version)

/-- `QuorumCert::verify`: the hash of the vote data, the genesis QC of round 0
without signatures, and otherwise a quorum of signatures. -/
def qcVerifies (verifier : Nat) (qc : QuorumCert) : Bool :=
  qc.signedLedgerInfo.ledgerInfo.consensusDataHash = a.hashVoteData qc.voteData &&
    if qc.certifiedBlock.round = 0 then
      qc.parentBlock = qc.certifiedBlock && qc.certifiedBlock = qc.signedLedgerInfo.ledgerInfo.commitInfo &&
        qc.signedLedgerInfo.signers.isEmpty
    else
      a.verifySignatures verifier qc.signedLedgerInfo && voteDataWellFormed qc.voteData

/-- `SafetyRules::verify_qc`. -/
def verifyQc (sr : SafetyRules) (qc : QuorumCert) : Except Error Unit := do
  let es ← sr.epochState?
  if qcVerifies a es.verifier qc then .ok () else .error .invalidQuorumCertificate

/-- `TwoChainTimeout::verify`. -/
def timeoutVerifies (verifier : Nat) (t : TwoChainTimeout) : Bool :=
  t.hqcRound < t.round && qcVerifies a verifier t.quorumCert

/-- `TwoChainTimeoutCertificate::verify`: the certificate's own timeout, the
aggregate signature, and its QC round being the highest round signed. -/
def tcVerifies (verifier : Nat) (tc : TwoChainTimeoutCertificate) : Bool :=
  timeoutVerifies a verifier tc.timeout && a.verifyTimeoutSignatures verifier tc &&
    (tc.signaturesWithRounds.map Prod.snd).max? = some tc.timeout.hqcRound

/-- `SafetyRules::verify_tc`. -/
def verifyTc (sr : SafetyRules) (tc : TwoChainTimeoutCertificate) : Except Error Unit := do
  let es ← sr.epochState?
  if tcVerifies a es.verifier tc then .ok () else .error .invalidTimeoutCertificate

/-- The check of an optional timeout certificate, `if let Some(tc) =
timeout_cert { self.verify_tc(tc)? }`. -/
def verifyTcIfPresent (sr : SafetyRules) : Option TwoChainTimeoutCertificate → Except Error Unit
  | some tc => verifyTc a sr tc
  | none => .ok ()

/-- `Block::verify_well_formed`: the parent's round is lower and its epoch the
same; the remaining checks come from the external crate. -/
def blockWellFormed (b : Block) : Bool :=
  b.quorumCert.certifiedBlock.round < b.round && b.quorumCert.certifiedBlock.epoch = b.epoch &&
    a.wellFormedRest b

/-- `VoteProposal::gen_vote_data`, which panics (`none`) unless execution is
decoupled. -/
def genVoteData (vp : VoteProposal) : Option VoteData :=
  if vp.decoupledExecution then
    some ⟨vp.block.genBlockInfo a.accumulatorPlaceholderHash 0 vp.nextEpochState,
      vp.block.quorumCert.certifiedBlock⟩
  else none

end Checks

/-- `SafetyRules::observe_qc`: raise the one-chain and two-chain rounds. -/
def observeQc (qc : QuorumCert) (safetyData : SafetyData) : SafetyData :=
  { safetyData with
    oneChainRound := max safetyData.oneChainRound qc.certifiedBlock.round
    preferredRound := max safetyData.preferredRound qc.parentBlock.round }

/-- `SafetyRules::update_highest_timeout_round`. -/
def updateHighestTimeoutRound (timeout : TwoChainTimeout) (safetyData : SafetyData) : SafetyData :=
  { safetyData with highestTimeoutRound := max safetyData.highestTimeoutRound timeout.round }

/-- `SafetyRules::verify_and_update_last_vote_round`, the first voting rule. -/
def verifyAndUpdateLastVoteRound (round : Nat) (safetyData : SafetyData) : Except Error SafetyData :=
  if round ≤ safetyData.lastVotedRound then
    .error (.incorrectLastVotedRound round safetyData.lastVotedRound)
  else .ok { safetyData with lastVotedRound := round }

/-- `safe_to_timeout`: the timeout extends the timeout's own QC or the TC, and
its QC is not below the one-chain round. -/
def safeToTimeout (timeout : TwoChainTimeout) (tc : Option TwoChainTimeoutCertificate)
    (safetyData : SafetyData) : Except Error Unit := do
  let round := timeout.round
  let qcRound := timeout.hqcRound
  let tcRound := (tc.map TwoChainTimeoutCertificate.round).getD 0
  let afterQc ← nextRound qcRound
  -- the `||` of the source evaluates `next_round(tc_round)?` only when needed
  let extending ← if round = afterQc then pure true else do
    let afterTc ← nextRound tcRound
    pure (decide (round = afterTc))
  if extending && decide (qcRound ≥ safetyData.oneChainRound) then .ok ()
  else .error (.notSafeToTimeout round qcRound tcRound safetyData.oneChainRound)

/-- `safe_to_vote`, the 2-chain voting rule. -/
def safeToVote (block : Block) (tc : Option TwoChainTimeoutCertificate) : Except Error Unit := do
  let round := block.round
  let qcRound := block.quorumCert.certifiedBlock.round
  let tcRound := (tc.map TwoChainTimeoutCertificate.round).getD 0
  let hqcRound := (tc.map TwoChainTimeoutCertificate.highestHqcRound).getD 0
  let afterQc ← nextRound qcRound
  let extending ← if round = afterQc then pure true else do
    let afterTc ← nextRound tcRound
    pure (decide (round = afterTc) && decide (qcRound ≥ hqcRound))
  if extending then .ok () else .error (.notSafeToVote round qcRound tcRound hqcRound)

/-- `safe_for_order_vote`. -/
def safeForOrderVote (block : Block) (safetyData : SafetyData) : Except Error Unit :=
  if block.round > safetyData.highestTimeoutRound then .ok ()
  else .error (.notSafeForOrderVote block.round safetyData.highestTimeoutRound)

/-- `construct_ledger_info_2chain`: commit the QC's block when the proposed
block is its direct child by round. -/
def constructLedgerInfo2chain (block : Block) (consensusDataHash : HashValue) :
    Except Error LedgerInfo := do
  let block1 := block.round
  let block0 := block.quorumCert.certifiedBlock.round
  let afterBlock0 ← nextRound block0
  let commitInfo := if afterBlock0 = block1 then block.quorumCert.certifiedBlock else BlockInfo.empty
  .ok ⟨commitInfo, consensusDataHash⟩

/-- Replace the storage. -/
def withStorage (sr : SafetyRules) (p : PersistentSafetyStorage) : SafetyRules :=
  { sr with persistentStorage := p }

/-- Persist the updated SafetyData and, when the write succeeds, return `x`. -/
def persistThen {α : Type} (sr : SafetyRules) (safetyData : SafetyData) (write : WriteOutcome) (x : α) :
    SafetyRules × Except Error α :=
  match sr.persistentStorage.setSafetyData safetyData write with
  | (p, .ok ()) => (sr.withStorage p, .ok x)
  | (p, .error e) => (sr.withStorage p, .error e)

section Guarded

variable (a : Aptos)

/-- The checks and updates of `guarded_sign_timeout_with_qc` between reading
and persisting the SafetyData. -/
def timeoutUpdate (sr : SafetyRules) (timeout : TwoChainTimeout)
    (timeoutCert : Option TwoChainTimeoutCertificate) (safetyData : SafetyData) :
    Except Error SafetyData := do
  verifyEpoch timeout.epoch safetyData
  let es ← sr.epochState?
  if !timeoutVerifies a es.verifier timeout then throw .invalidTimeout
  verifyTcIfPresent a sr timeoutCert
  safeToTimeout timeout timeoutCert safetyData
  if timeout.round < safetyData.lastVotedRound then
    throw (.incorrectLastVotedRound timeout.round safetyData.lastVotedRound)
  let safetyData ←
    if timeout.round > safetyData.lastVotedRound then verifyAndUpdateLastVoteRound timeout.round safetyData
    else pure safetyData
  pure (updateHighestTimeoutRound timeout safetyData)

/-- `guarded_sign_timeout_with_qc`. -/
def guardedSignTimeoutWithQc (sr : SafetyRules) (timeout : TwoChainTimeout)
    (timeoutCert : Option TwoChainTimeoutCertificate) (write : WriteOutcome) :
    SafetyRules × Except Error Signature :=
  match sr.signer with
  | .error e => (sr, .error e)
  | .ok signer =>
      match sr.persistentStorage.safetyData with
      | .error e => (sr, .error e)
      | .ok (safetyData, p) =>
          let sr := sr.withStorage p
          match timeoutUpdate a sr timeout timeoutCert safetyData with
          | .error e => (sr, .error e)
          | .ok safetyData =>
              sr.persistThen safetyData write (a.sign signer (.timeout timeout.signingFormat))

/-- `verify_proposal` after its read of the SafetyData: the epoch, the QC, the
proposer's signature and the well-formedness of the block, then the vote data. -/
def verifyProposal (sr : SafetyRules) (vp : VoteProposal) (safetyData : SafetyData) :
    Option (Except Error VoteData) :=
  let block := vp.block
  let checks : Except Error Unit := do
    verifyEpoch block.epoch safetyData
    verifyQc a sr block.quorumCert
    let es ← sr.epochState?
    if !a.validateBlockSignature es.verifier block then throw (.invalidProposal "signature")
    if !blockWellFormed a block then throw (.invalidProposal "well formed")
  match checks with
  | .error e => some (.error e)
  | .ok () => (genVoteData a vp).map .ok

/-- The voting part of `guarded_construct_and_sign_vote_two_chain`, after the
second read of the SafetyData: a re-send of the last vote of the same round,
or the two voting rules, the 1-chain update and a new vote. -/
def voteUpdate (signer : ValidatorSigner) (vp : VoteProposal) (voteData : VoteData)
    (timeoutCert : Option TwoChainTimeoutCertificate) (safetyData : SafetyData) :
    Except Error (Vote ⊕ (Vote × SafetyData)) := do
  let block := vp.block
  match safetyData.lastVote with
  | some vote => if vote.voteData.proposed.round = block.round then return .inl vote
  | none => pure ()
  let safetyData ← verifyAndUpdateLastVoteRound block.blockData.round safetyData
  safeToVote block timeoutCert
  let safetyData := observeQc block.quorumCert safetyData
  let ledgerInfo ← constructLedgerInfo2chain block (a.hashVoteData voteData)
  let vote : Vote := ⟨voteData, signer.author, ledgerInfo, a.sign signer (.ledgerInfo ledgerInfo), none⟩
  return .inr (vote, { safetyData with lastVote := some vote })

/-- `guarded_construct_and_sign_vote_two_chain`; `none` when
`gen_vote_data` panics. -/
def guardedConstructAndSignVoteTwoChain (sr : SafetyRules) (vp : VoteProposal)
    (timeoutCert : Option TwoChainTimeoutCertificate) (write : WriteOutcome) :
    Option (SafetyRules × Except Error Vote) :=
  match sr.signer with
  | .error e => some (sr, .error e)
  | .ok signer =>
      match sr.persistentStorage.safetyData with
      | .error e => some (sr, .error e)
      | .ok (safetyData, p) =>
          let sr := sr.withStorage p
          (verifyProposal a sr vp safetyData).map fun
            | .error e => (sr, .error e)
            | .ok voteData =>
                match verifyTcIfPresent a sr timeoutCert with
                | .error e => (sr, .error e)
                | .ok () =>
                    -- the second read finds the copy the first read cached
                    match sr.persistentStorage.safetyData with
                    | .error e => (sr, .error e)
                    | .ok (safetyData, p) =>
                        let sr := sr.withStorage p
                        match voteUpdate a signer vp voteData timeoutCert safetyData with
                        | .error e => (sr, .error e)
                        | .ok (.inl vote) => (sr, .ok vote)
                        | .ok (.inr (vote, safetyData)) => sr.persistThen safetyData write vote

/-- `verify_order_vote_proposal` after its read of the SafetyData. -/
def verifyOrderVoteProposal (sr : SafetyRules) (ovp : OrderVoteProposal) (safetyData : SafetyData) :
    Except Error Unit := do
  verifyEpoch ovp.block.epoch safetyData
  let qc := ovp.quorumCert
  if qc.certifiedBlock ≠ ovp.blockInfo then
    throw (.invalidOneChainQuorumCertificate qc.certifiedBlock.id ovp.blockInfo.id)
  if qc.certifiedBlock.id ≠ ovp.block.id then
    throw (.invalidOneChainQuorumCertificate qc.certifiedBlock.id ovp.block.id)
  verifyQc a sr qc

/-- `guarded_construct_and_sign_order_vote`. -/
def guardedConstructAndSignOrderVote (sr : SafetyRules) (ovp : OrderVoteProposal)
    (write : WriteOutcome) : SafetyRules × Except Error OrderVote :=
  match sr.signer with
  | .error e => (sr, .error e)
  | .ok signer =>
      match sr.persistentStorage.safetyData with
      | .error e => (sr, .error e)
      | .ok (safetyData, p) =>
          let sr := sr.withStorage p
          match verifyOrderVoteProposal a sr ovp safetyData with
          | .error e => (sr, .error e)
          | .ok () =>
              match sr.persistentStorage.safetyData with
              | .error e => (sr, .error e)
              | .ok (safetyData, p) =>
                  let sr := sr.withStorage p
                  let safetyData := observeQc ovp.quorumCert safetyData
                  match safeForOrderVote ovp.block safetyData with
                  | .error e => (sr, .error e)
                  | .ok () =>
                      let ledgerInfo : LedgerInfo := ⟨ovp.blockInfo, 0⟩
                      sr.persistThen safetyData write
                        ⟨signer.author, ledgerInfo, a.sign signer (.ledgerInfo ledgerInfo)⟩

/-- The checks of `guarded_sign_proposal` after reading the SafetyData; the
updated preferred round is not persisted. -/
def proposalChecks (sr : SafetyRules) (blockData : BlockData) (safetyData : SafetyData) :
    Except Error Unit := do
  verifyEpoch blockData.epoch safetyData
  if blockData.round ≤ safetyData.lastVotedRound then throw (.invalidProposal "round")
  verifyQc a sr blockData.quorumCert
  if blockData.quorumCert.certifiedBlock.round < safetyData.preferredRound then
    throw (.incorrectPreferredRound blockData.quorumCert.certifiedBlock.round safetyData.preferredRound)

/-- `guarded_sign_proposal`. -/
def guardedSignProposal (sr : SafetyRules) (blockData : BlockData) : SafetyRules × Except Error Signature :=
  match sr.signer with
  | .error e => (sr, .error e)
  | .ok signer =>
      -- `verify_author`
      match blockData.author with
      | none => (sr, .error (.invalidProposal "no author"))
      | some author =>
          if signer.author ≠ author then (sr, .error (.invalidProposal "author"))
          else
            match sr.persistentStorage.safetyData with
            | .error e => (sr, .error e)
            | .ok (safetyData, p) =>
                let sr := sr.withStorage p
                match proposalChecks a sr blockData safetyData with
                | .error e => (sr, .error e)
                | .ok () => (sr, .ok (a.sign signer (.blockData blockData)))

/-- `guarded_sign_commit_vote`: no SafetyData is read or written. -/
def guardedSignCommitVote (sr : SafetyRules) (ledgerInfo : LedgerInfoWithSignatures)
    (newLedgerInfo : LedgerInfo) : Except Error Signature := do
  let signer ← sr.signer
  let old := ledgerInfo.ledgerInfo
  if !a.isOrderedOnly old.commitInfo && old.commitInfo ≠ newLedgerInfo.commitInfo then
    throw .invalidOrderedLedgerInfo
  if !a.matchOrderedOnly old.commitInfo newLedgerInfo.commitInfo then
    throw .inconsistentExecutionResult
  let es ← sr.epochState?
  if !a.verifySignatures es.verifier ledgerInfo then throw .invalidQuorumCertificate
  pure (a.sign signer (.ledgerInfo newLedgerInfo))

/-- The waypoint and epoch state `guarded_initialize` derives from a proof. -/
def initializeTarget (sr : SafetyRules) (proof : EpochChangeProof) :
    Except Error (Waypoint × EpochState × Waypoint) := do
  let waypoint ← sr.persistentStorage.waypoint
  let lastLi ← match a.verifyEpochChangeProof proof waypoint with
    | some li => pure li
    | none => throw .invalidEpochChangeProof
  let ledgerInfo := lastLi.ledgerInfo
  let epochState ← match ledgerInfo.commitInfo.nextEpochState with
    | some es => pure es
    | none => throw .invalidLedgerInfo
  let newWaypoint ← match a.newEpochBoundary ledgerInfo with
    | some w => pure w
    | none => throw .internalError
  pure (waypoint, epochState, newWaypoint)

/-- The key reconciliation at the end of `guarded_initialize`: the validator
must be in the new set, and its key must be the signer's or be in storage
(`keyFound`); on failure the signer is dropped. -/
def reconcileKey (sr : SafetyRules) (epochState : EpochState) (keyFound : Bool) :
    SafetyRules × Except Error Unit :=
  let author := sr.persistentStorage.author
  if !a.inValidatorSet epochState.verifier author then
    ({ sr with validatorSigner := none }, .error (.validatorNotInSet author))
  else if keyFound then ({ sr with validatorSigner := some ⟨author⟩ }, .ok ())
  else ({ sr with validatorSigner := none }, .error .validatorKeyNotFound)

/-- `guarded_initialize`: move the waypoint forward, start the proof's epoch
when it is newer than the stored one, and reconcile the signing key. -/
def guardedInitialize (sr : SafetyRules) (proof : EpochChangeProof) (keyFound : Bool)
    (waypointWrite safetyDataWrite : WriteOutcome) : SafetyRules × Except Error Unit :=
  match initializeTarget a sr proof with
  | .error e => (sr, .error e)
  | .ok (waypoint, epochState, newWaypoint) =>
      match sr.persistentStorage.advanceWaypoint waypoint newWaypoint waypointWrite with
      | (p, .error e) => (sr.withStorage p, .error e)
      | (p, .ok ()) =>
          let sr := sr.withStorage p
          match sr.persistentStorage.safetyData with
          | .error e => (sr, .error e)
          | .ok (safetyData, p) =>
              let sr := sr.withStorage p
              let currentEpoch := safetyData.epoch
              if currentEpoch > epochState.epoch then
                (sr, .error (.waypointOutOfDate waypoint.version newWaypoint.version currentEpoch
                  epochState.epoch))
              else
                match sr.persistentStorage.startEpoch currentEpoch epochState.epoch safetyDataWrite with
                | (p, .error e) => (sr.withStorage p, .error e)
                | (p, .ok ()) =>
                    let sr := { sr.withStorage p with epochState := some epochState }
                    reconcileKey a sr epochState keyFound

end Guarded

end SafetyRules

end GravitySdk.Consensus
