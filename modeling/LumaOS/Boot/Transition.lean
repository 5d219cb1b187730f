import LumaOS.Boot.State

/-!
# Commands and transitions of boot control

Model of `boot_control.py:598-1469`: the injected trust (`TransitionGuards`), commands with their
shape check and request digest, `initial_boot_state`, `transition` and `_dispatch` with its
helpers. `replace(state, ...)` is `BootState.build` of the changed fields, so every intermediate
state passes the validator or raises.

The guards answer for code outside the module. A guard is a pure function within one call; two
calls may have different guards.
-/

namespace LumaOS.Boot

open LumaOS.Base LumaOS.Text LumaOS.Json

variable (sha256 : Bytes → Vector UInt8 32)

/-! ## Guards -/

structure StateAuthenticator where
  verify : Bytes → String → Bool
  sealTag : Bytes → String

structure MonotonicAnchor where
  /-- `is_current(controller_id, generation, state_commitment_sha256)`. -/
  isCurrent : String → Int → String → Bool

structure BootObservationVerifier where
  verifyPersisted : BootObservation → Bool

structure DataCheckpointOracle where
  verifyDurable : DataCheckpoint → Bool
  isReadable : DataCheckpoint → ReleaseIdentity → Bool

structure TransitionGuards where
  stateAuthenticator : StateAuthenticator
  monotonicAnchor : MonotonicAnchor
  bootObservationVerifier : BootObservationVerifier
  dataCheckpointOracle : DataCheckpointOracle

/-! ## Commands -/

structure BootCommand where
  kind : CommandKind
  operationId : String
  expectedGeneration : Int
  fenceEpoch : Int
  fenceOwnerToken : String
  targetSlot : Option SlotName := none
  artifact : Option ReleaseArtifact := none
  dataCheckpoint : Option DataCheckpoint := none
  healthyServices : List String := []
  attemptNonce : Option String := none
  bootObservation : Option BootObservation := none
  newFenceEpoch : Option Int := none
  newFenceOwnerToken : Option String := none
deriving DecidableEq

/-- The fields of a command that only some kinds have. -/
inductive Payload where
  | artifact
  | attemptNonce
  | bootObservation
  | dataCheckpoint
  | healthyServices
  | newFenceEpoch
  | newFenceOwnerToken
  | targetSlot
deriving DecidableEq

def Payload.name : Payload → String
  | .artifact => "artifact"
  | .attemptNonce => "attempt_nonce"
  | .bootObservation => "boot_observation"
  | .dataCheckpoint => "data_checkpoint"
  | .healthyServices => "healthy_services"
  | .newFenceEpoch => "new_fence_epoch"
  | .newFenceOwnerToken => "new_fence_owner_token"
  | .targetSlot => "target_slot"

/-- In the order of their names. -/
def Payload.all : List Payload :=
  [.artifact, .attemptNonce, .bootObservation, .dataCheckpoint, .healthyServices, .newFenceEpoch,
    .newFenceOwnerToken, .targetSlot]

/-- The table `allowed` of `_validate_command_shape`. -/
def CommandKind.allowed : CommandKind → List Payload
  | .beginDownload => [.targetSlot, .artifact]
  | .verifyComplete => [.artifact]
  | .beginFirstBoot => [.attemptNonce]
  | .recordBootObservation => [.bootObservation]
  | .ackEssentialHealth => [.healthyServices]
  | .ackDataCheckpoint => [.dataCheckpoint]
  | .rotateFence => [.newFenceEpoch, .newFenceOwnerToken]
  | _ => []

/-- Membership in the set `present`. -/
def BootCommand.present (c : BootCommand) : Payload → Bool
  | .artifact => c.artifact.isSome
  | .attemptNonce => c.attemptNonce.isSome
  | .bootObservation => c.bootObservation.isSome
  | .dataCheckpoint => c.dataCheckpoint.isSome
  | .healthyServices => !c.healthyServices.isEmpty
  | .newFenceEpoch => c.newFenceEpoch.isSome
  | .newFenceOwnerToken => c.newFenceOwnerToken.isSome
  | .targetSlot => c.targetSlot.isSome

/-- `repr` of a list of names. -/
def pyNames (fields : List Payload) : String :=
  "[" ++ ", ".intercalate (fields.map fun f => "'" ++ f.name ++ "'") ++ "]"

/-- `_validate_command_shape`. -/
def BootCommand.validateShape (c : BootCommand) : Except Raised Unit :=
  raiseIf (!Payload.all.all fun f => c.present f == c.kind.allowed.contains f)
    (invalid (c.kind.value ++ " payload differs; expected=" ++
      pyNames (Payload.all.filter c.kind.allowed.contains) ++ ", present=" ++
      pyNames (Payload.all.filter c.present)))

/-- `BootCommand.__post_init__`, which also normalizes the services. -/
def BootCommand.postInit (raw : BootCommand) : Except Raised BootCommand := do
  checkText 256 "operation_id" raw.operationId
  checkNonnegative "expected_generation" raw.expectedGeneration
  checkPositive "command fence epoch" raw.fenceEpoch
  checkText 256 "command fence owner" raw.fenceOwnerToken
  let services ← normalized "healthy service" raw.healthyServices
  let c := { raw with healthyServices := services }
  checkTexts "attempt_nonce" c.attemptNonce.toList
  (match c.newFenceEpoch with
    | none => .ok ()
    | some epoch => checkPositive "new_fence_epoch" epoch)
  checkTexts "new_fence_owner_token" c.newFenceOwnerToken.toList
  c.validateShape
  pure c

/-- The document of `_canonical_command`. -/
def BootCommand.document (c : BootCommand) : Value :=
  .object [
    ("artifact", optional artifactDocument c.artifact),
    ("attempt_nonce", optional .string c.attemptNonce),
    ("boot_observation", optional observationDocument c.bootObservation),
    ("data_checkpoint", optional checkpointDocument c.dataCheckpoint),
    ("expected_generation", .number c.expectedGeneration),
    ("fence_epoch", .number c.fenceEpoch),
    ("fence_owner_token", .string c.fenceOwnerToken),
    ("healthy_services", .array (c.healthyServices.map .string)),
    ("kind", .string c.kind.value),
    ("new_fence_epoch", optional .number c.newFenceEpoch),
    ("new_fence_owner_token", optional .string c.newFenceOwnerToken),
    ("operation_id", .string c.operationId),
    ("target_slot", optional (fun n => .string (SlotName.value n)) c.targetSlot)]

/-- `_canonical_command`. -/
def BootCommand.canonical (c : BootCommand) : Bytes := toVec c.document

def BootCommand.requestSha256 (c : BootCommand) : String := hexdigest sha256 c.canonical

/-! ## Results -/

structure MonotonicAnchorUpdate where
  controllerId : String
  expectedGeneration : Int
  expectedCommitmentSha256 : String
  newGeneration : Int
  newCommitmentSha256 : String
deriving DecidableEq

structure TransitionReceipt where
  operationId : String
  kind : CommandKind
  appliedGeneration : Int
  outcome : String
  replayed : Bool
deriving DecidableEq

structure TransitionResult where
  state : BootState
  receipt : TransitionReceipt
  anchorUpdate : Option MonotonicAnchorUpdate
deriving DecidableEq

/-! ## Helpers -/

/-- A value that the validators above have made sure of. -/
def present {α : Type} (value : Option α) (message : String) : Except Raised α :=
  match value with
  | some a => .ok a
  | none => .error (invalid message)

def BootCommand.getArtifact (c : BootCommand) : Except Raised ReleaseArtifact :=
  Boot.present c.artifact "validated command is missing its release artifact"

def BootCommand.getTarget (c : BootCommand) : Except Raised SlotName :=
  Boot.present c.targetSlot "validated command is missing its target slot"

def BootCommand.getAttemptNonce (c : BootCommand) : Except Raised String :=
  Boot.present c.attemptNonce "validated command is missing its boot-attempt nonce"

def BootCommand.getBootObservation (c : BootCommand) : Except Raised BootObservation :=
  Boot.present c.bootObservation "validated command is missing its boot observation"

def BootCommand.getCheckpoint (c : BootCommand) : Except Raised DataCheckpoint :=
  Boot.present c.dataCheckpoint "validated command is missing its data checkpoint"

/-- `_fence_rotation`. -/
def BootCommand.fenceRotation (c : BootCommand) : Except Raised (Int × String) :=
  match c.newFenceEpoch, c.newFenceOwnerToken with
  | some epoch, some owner => .ok (epoch, owner)
  | _, _ => .error (invalid "validated fence rotation is missing epoch or owner")

/-- `SlotRecord(...)` and `replace` in one place of the source: a record replaced. -/
def replaceSlot (s : BootState) (replacement : SlotRecord) : SlotRecord × SlotRecord :=
  replaceSlotTuple s.slots replacement

namespace BootState

/-- `_update_fields`. -/
def updateFields (s : BootState) : Except Raised (SlotName × ReleaseArtifact) :=
  match s.targetSlot, s.candidate with
  | some target, some candidate => .ok (target, candidate)
  | _, _ => .error (invalid "durable update state is missing target or candidate")

/-- `_slot_artifact`. -/
def slotArtifact (s : BootState) (name : SlotName) : Except Raised ReleaseArtifact :=
  Boot.present (s.slot name).artifact "referenced boot slot has no release artifact"

/-- `_current_attempt_nonce`. -/
def getCurrentAttemptNonce (s : BootState) : Except Raised String :=
  Boot.present s.currentAttemptNonce "first-boot state is missing its attempt nonce"

/-- The observation that `ACK_ESSENTIAL_HEALTH` asks for. -/
def requireObservation (s : BootState) : Except Raised BootObservation :=
  match s.bootObservation with
  | some observation => .ok observation
  | none => .error ⟨.invalidTransition,
      "trusted persisted boot observation is required before health"⟩

/-- The evidence that `COMMIT_TRIAL` asks for. -/
def requireEvidence (s : BootState) :
    Except Raised (BootObservation × EssentialHealthAcknowledgement) :=
  match s.bootObservation, s.healthAcknowledgement with
  | some observation, some acknowledgement => .ok (observation, acknowledgement)
  | _, _ => .error ⟨.invalidTransition,
      "persisted boot observation and bound health are required"⟩

/-- `_require_phase`. -/
def requirePhase (s : BootState) (expected : UpdatePhase) : Except Raised Unit :=
  raiseIf (s.phase != expected)
    ⟨.invalidTransition, expected.value ++ " phase required; current phase is " ++ s.phase.value⟩

/-- `_ensure_fallback_readable`. -/
def ensureFallbackReadable (s : BootState) (G : TransitionGuards) : Except Raised Unit := do
  let active ← s.slotArtifact s.activeSlot
  raiseIf (!G.dataCheckpointOracle.isReadable s.dataCheckpoint active.identity)
    ⟨.fallbackReadabilityRejected,
      "retained active release cannot read the acknowledged data checkpoint"⟩

/-- The fields `_abort_before_write` and `_automatic_fallback` clear. -/
def cleared (s : BootState) : BootState :=
  { s with
    selectedSlot := s.activeSlot
    phase := .idle
    candidate := none
    targetSlot := none
    currentAttemptNonce := none
    bootObservation := none
    healthAcknowledgement := none }

/-- `_abort_before_write`. -/
def abortBeforeWrite (s : BootState) : Except Raised BootState := s.cleared.build

/-- `_automatic_fallback`. -/
def automaticFallback (s : BootState) (failures : Int) : Except Raised BootState := do
  let (targetSlot, _) ← s.updateFields
  let target := s.slot targetSlot
  let artifact ← Boot.present target.artifact
    "automatic fallback requires a staged target artifact"
  let rejected ← SlotRecord.build target.identity (some artifact) .rejected
  build { s.cleared with slots := replaceSlot s rejected, trialFailures := failures }

/-- `_record_trial_failure`. -/
def recordTrialFailure (s : BootState) (G : TransitionGuards) :
    Except Raised (BootState × String) :=
  let failures := s.trialFailures + 1
  if failures ≥ maxTrialFailures then do
    s.ensureFallbackReadable G
    let next ← s.automaticFallback failures
    pure (next, "trial-failed-automatic-fallback")
  else do
    let next ← build { s with
      phase := .select
      trialFailures := failures
      currentAttemptNonce := none
      bootObservation := none
      healthAcknowledgement := none }
    pure (next, "trial-failed-retry-retained")

/-- `_reconcile_power_loss`. -/
def reconcilePowerLoss (s : BootState) (G : TransitionGuards) :
    Except Raised (BootState × String) :=
  match s.phase with
  | .idle => .ok (s, "power-loss-already-stable")
  | .download | .verify => do
    let next ← s.abortBeforeWrite
    pure (next, "power-loss-" ++ s.phase.value ++ "-active-retained")
  | .write => do
    let (targetSlot, candidate) ← s.updateFields
    let rejected ← SlotRecord.build (s.slot targetSlot).identity (some candidate) .rejected
    let next ← build { s with
      slots := replaceSlot s rejected
      selectedSlot := s.activeSlot
      phase := .idle
      candidate := none
      targetSlot := none }
    pure (next, "power-loss-write-partial-target-rejected")
  | .select => do
    s.ensureFallbackReadable G
    let next ← build { s with
      selectedSlot := s.activeSlot
      phase := .idle
      candidate := none
      targetSlot := none }
    pure (next, "power-loss-select-active-restored")
  | .firstBoot => do
    let (next, outcome) ← s.recordTrialFailure G
    pure (next, "power-loss-first-boot-" ++ outcome)

/-- `_observed_running_release`. -/
def observedRunningRelease (s : BootState) : Except Raised ReleaseIdentity :=
  if s.phase = .firstBoot then
    match s.bootObservation, s.candidate with
    | some _, some candidate => .ok candidate.identity
    | _, _ => .error ⟨.invalidTransition,
        "trial data acknowledgement requires a trusted persisted boot observation"⟩
  else do
    let artifact ← s.slotArtifact s.activeSlot
    pure artifact.identity

end BootState

/-- `TamperObservation(...)`. -/
def TamperObservation.build (t : TamperObservation) : Except Raised TamperObservation := do
  t.check
  pure t

/-- `_verification_tamper`. -/
def verificationTamper (s : BootState) (c : BootCommand) : Except Raised TamperObservation := do
  let (targetSlot, candidate) ← s.updateFields
  let artifact ← c.getArtifact
  TamperObservation.build
    { operationId := c.operationId
      phase := .verify
      targetSlot
      attemptNonce := none
      expectedManifestSha256 := candidate.identity.manifestSha256
      expectedRootSha256 := candidate.identity.rootSha256
      observedManifestSha256 := artifact.identity.manifestSha256
      observedRootSha256 := artifact.identity.rootSha256
      observedSignatureStatus := artifact.signatureStatus
      observedIntegrityStatus := artifact.integrityStatus
      fenceEpoch := s.fenceEpoch
      reason := "verification-content-or-trust-mismatch" }

/-- `_boot_tamper`. -/
def bootTamper (s : BootState) (c : BootCommand) : Except Raised TamperObservation := do
  let (targetSlot, candidate) ← s.updateFields
  let observation ← c.getBootObservation
  TamperObservation.build
    { operationId := c.operationId
      phase := .firstBoot
      targetSlot
      attemptNonce := some observation.attemptNonce
      expectedManifestSha256 := candidate.identity.manifestSha256
      expectedRootSha256 := candidate.identity.rootSha256
      observedManifestSha256 := observation.releaseManifestSha256
      observedRootSha256 := observation.releaseRootSha256
      observedSignatureStatus := observation.signatureStatus
      observedIntegrityStatus := observation.integrityStatus
      fenceEpoch := s.fenceEpoch
      reason := "boot-slot-release-or-fence-mismatch" }

/-! ## `_dispatch`, one function for each command -/

section Dispatch

variable (s : BootState) (c : BootCommand) (G : TransitionGuards)

def beginDownload : Except Raised (BootState × String) := do
  s.requirePhase .idle
  let targetSlot ← c.getTarget
  let artifact ← c.getArtifact
  raiseIf (targetSlot == s.activeSlot)
    ⟨.invalidTransition, "updates may target only the inactive root slot"⟩
  let activeArtifact ← s.slotArtifact s.activeSlot
  raiseIf (artifact.identity == activeArtifact.identity)
    ⟨.invalidTransition, "candidate must identify a release other than the active release"⟩
  let next ← BootState.build { s with
    phase := .download
    candidate := some artifact
    targetSlot := some targetSlot
    trialFailures := 0 }
  pure (next, "download-started")

def downloadComplete : Except Raised (BootState × String) := do
  s.requirePhase .download
  let next ← BootState.build { s with phase := .verify }
  pure (next, "download-complete")

def verifyComplete : Except Raised (BootState × String) := do
  s.requirePhase .verify
  let artifact ← c.getArtifact
  let (_, candidate) ← s.updateFields
  let active ← s.slotArtifact s.activeSlot
  if artifact.identity ≠ candidate.identity ∨ artifact.trustedAndVerified = false then do
    let tamper ← verificationTamper s c
    let aborted ← s.abortBeforeWrite
    let next ← BootState.build { aborted with
      tamperObservations := s.tamperObservations ++ [tamper] }
    pure (next, "tampered-release-rejected")
  else if artifact.identity.dataCompatibilityId ≠ active.identity.dataCompatibilityId ∨
      artifact.identity.dataCompatibilityId ≠ s.dataCheckpoint.schemaId ∨
      artifact.identity.releaseSequence ≤ active.identity.releaseSequence ∨
      artifact.identity.releaseSequence ≤ s.minimumReleaseSequence then do
    let aborted ← s.abortBeforeWrite
    pure (aborted, "release-policy-or-downgrade-rejected")
  else do
    let next ← BootState.build { s with phase := .write, candidate := some artifact }
    pure (next, "release-verified")

def writeComplete : Except Raised (BootState × String) := do
  s.requirePhase .write
  let (targetSlot, candidate) ← s.updateFields
  raiseIf (!candidate.trustedAndVerified)
    ⟨.tamperRejected, "unverified candidate cannot enter a root slot"⟩
  let staged ← SlotRecord.build (s.slot targetSlot).identity (some candidate) .staged
  let next ← BootState.build { s with slots := replaceSlot s staged, phase := .select }
  pure (next, "inactive-slot-write-complete")

def selectTrial : Except Raised (BootState × String) := do
  s.requirePhase .select
  let (targetSlot, _) ← s.updateFields
  raiseIf (s.selectedSlot == targetSlot) ⟨.invalidTransition, "trial target is already selected"⟩
  let next ← BootState.build { s with selectedSlot := targetSlot }
  pure (next, "trial-selected")

def beginFirstBoot : Except Raised (BootState × String) := do
  s.requirePhase .select
  let (targetSlot, _) ← s.updateFields
  let attemptNonce ← c.getAttemptNonce
  raiseIf (s.selectedSlot != targetSlot)
    ⟨.invalidTransition, "trial slot must be selected before its first boot"⟩
  raiseIf (s.usedAttemptNonces.contains attemptNonce)
    ⟨.invalidTransition, "boot-attempt nonce has already been used"⟩
  let next ← BootState.build { s with
    phase := .firstBoot
    currentAttemptNonce := some attemptNonce
    usedAttemptNonces := s.usedAttemptNonces ++ [attemptNonce] }
  pure (next, "first-boot-attempt-recorded")

def recordBootObservation : Except Raised (BootState × String) := do
  s.requirePhase .firstBoot
  raiseIf s.bootObservation.isSome
    ⟨.invalidTransition, "this boot attempt already has a persisted observation"⟩
  let observation ← c.getBootObservation
  raiseIf (!G.bootObservationVerifier.verifyPersisted observation)
    ⟨.externalEvidenceRejected, "boot observation is not trusted and durably persisted"⟩
  let (targetSlot, candidate) ← s.updateFields
  if observation.binds s targetSlot candidate then do
    let next ← BootState.build { s with bootObservation := some observation }
    pure (next, "boot-observation-persisted")
  else do
    s.ensureFallbackReadable G
    let tamper ← bootTamper s c
    let fallenBack ← s.automaticFallback s.trialFailures
    let next ← BootState.build { fallenBack with
      tamperObservations := s.tamperObservations ++ [tamper] }
    pure (next, "tampered-boot-observation-rejected-and-fallback-selected")

def trialFailure : Except Raised (BootState × String) := do
  s.requirePhase .firstBoot
  s.recordTrialFailure G

def ackEssentialHealth : Except Raised (BootState × String) := do
  s.requirePhase .firstBoot
  let observation ← s.requireObservation
  raiseIf (c.healthyServices != s.essentialServices)
    ⟨.invalidTransition, "all and only configured essential services must be acknowledged"⟩
  let (targetSlot, candidate) ← s.updateFields
  let attemptNonce ← s.getCurrentAttemptNonce
  let acknowledgement : EssentialHealthAcknowledgement :=
    { attemptNonce
      slot := targetSlot
      releaseManifestSha256 := candidate.identity.manifestSha256
      observationReceiptSha256 := observation.persistenceReceiptSha256
      healthyServices := s.essentialServices
      acknowledgedAtGeneration := s.generation }
  acknowledgement.check
  let next ← BootState.build { s with healthAcknowledgement := some acknowledgement }
  pure (next, "essential-health-acknowledged")

def commitTrial : Except Raised (BootState × String) := do
  s.requirePhase .firstBoot
  let (observation, acknowledgement) ← s.requireEvidence
  let attemptNonce ← s.getCurrentAttemptNonce
  let (targetSlot, _) ← s.updateFields
  raiseIf (acknowledgement.attemptNonce != attemptNonce ||
      observation.attemptNonce != attemptNonce)
    ⟨.invalidTransition, "boot observation and health must bind the current attempt"⟩
  let target := s.slot targetSlot
  let targetArtifact ← s.slotArtifact targetSlot
  raiseIf (!G.dataCheckpointOracle.isReadable s.dataCheckpoint targetArtifact.identity)
    ⟨.externalEvidenceRejected, "trial release cannot read the acknowledged checkpoint"⟩
  let oldActive := s.slot s.activeSlot
  let retained ← SlotRecord.build oldActive.identity oldActive.artifact .retained
  let activated ← SlotRecord.build target.identity (some targetArtifact) .active
  let next ← BootState.build { s with
    slots := replaceSlotTuple (replaceSlot s retained) activated
    activeSlot := targetSlot
    selectedSlot := targetSlot
    phase := .idle
    candidate := none
    targetSlot := none
    minimumReleaseSequence := targetArtifact.identity.releaseSequence
    trialFailures := 0
    currentAttemptNonce := none
    bootObservation := none
    healthAcknowledgement := none }
  pure (next, "trial-committed")

def ackDataCheckpoint : Except Raised (BootState × String) := do
  let proposed ← c.getCheckpoint
  let writer ← s.observedRunningRelease
  raiseIf (proposed.generation < s.dataCheckpoint.generation)
    ⟨.staleGeneration, "acknowledged data generation cannot move backwards"⟩
  raiseIf (proposed.generation == s.dataCheckpoint.generation &&
      proposed.sha256 != s.dataCheckpoint.sha256)
    ⟨.tamperRejected, "an acknowledged data generation cannot change digest"⟩
  raiseIf (proposed.writerFenceEpoch != s.fenceEpoch ||
      proposed.writerOwnerToken != s.fenceOwnerToken ||
      proposed.writerReleaseManifestSha256 != writer.manifestSha256 ||
      proposed.schemaId != writer.dataCompatibilityId)
    ⟨.externalEvidenceRejected, "checkpoint is not bound to the current writer and fence"⟩
  raiseIf (!G.dataCheckpointOracle.verifyDurable proposed)
    ⟨.externalEvidenceRejected, "checkpoint durability receipt is not trusted"⟩
  (if s.phase = .firstBoot then do
    let retained ← s.slotArtifact s.activeSlot
    raiseIf (!G.dataCheckpointOracle.isReadable proposed retained.identity)
      ⟨.fallbackReadabilityRejected,
        "retained release cannot read the proposed trial checkpoint"⟩
  else .ok ())
  let next ← BootState.build { s with dataCheckpoint := proposed }
  pure (next, "durable-data-checkpoint-acknowledged")

def rotateFence : Except Raised (BootState × String) := do
  s.requirePhase .idle
  let (newEpoch, newOwner) ← c.fenceRotation
  raiseIf (newEpoch != s.fenceEpoch + 1)
    ⟨.fenceRejected, "fence epoch must advance by exactly one"⟩
  raiseIf ((s.fenceOwnerToken :: s.retiredFenceOwnerTokens).contains newOwner)
    ⟨.fenceRejected, "fence owner token cannot be reused (ABA)"⟩
  let next ← BootState.build { s with
    fenceEpoch := newEpoch
    fenceOwnerToken := newOwner
    retiredFenceOwnerTokens := s.retiredFenceOwnerTokens ++ [s.fenceOwnerToken] }
  pure (next, "fence-rotated")

/-- `_dispatch`. -/
def dispatch : Except Raised (BootState × String) :=
  match c.kind with
  | .beginDownload => beginDownload s c
  | .downloadComplete => downloadComplete s
  | .verifyComplete => verifyComplete s c
  | .writeComplete => writeComplete s
  | .selectTrial => selectTrial s
  | .beginFirstBoot => beginFirstBoot s c
  | .recordBootObservation => recordBootObservation s c G
  | .trialFailure => trialFailure s G
  | .ackEssentialHealth => ackEssentialHealth s c
  | .commitTrial => commitTrial s G
  | .ackDataCheckpoint => ackDataCheckpoint s c G
  | .reconcilePowerLoss => s.reconcilePowerLoss G
  | .rotateFence => rotateFence s c

/-! ## `transition` -/

/-- The checks of the durable state against the guards. -/
def authenticate : Except Raised Unit := do
  raiseIf (!G.stateAuthenticator.verify s.authenticatedBytes s.authenticationTag)
    ⟨.stateAuthenticationRejected, "durable boot state authentication failed"⟩
  raiseIf (!G.monotonicAnchor.isCurrent s.controllerId s.generation (s.commitmentSha256 sha256))
    ⟨.monotonicAnchorRejected, "durable boot state does not match the external anchor"⟩

/-- A recorded operation returned again, or refused. -/
def replay (record : OperationRecord) : Except Raised TransitionResult := do
  raiseIf (record.kind != c.kind || record.requestSha256 != c.requestSha256 sha256)
    ⟨.idempotencyConflict, "operation_id was already used by a different request"⟩
  pure ⟨s, ⟨record.operationId, record.kind, record.appliedGeneration, record.outcome, true⟩, none⟩

/-- The record of an applied command. -/
def appliedRecord (outcome : String) : OperationRecord :=
  { operationId := c.operationId
    kind := c.kind
    requestSha256 := c.requestSha256 sha256
    appliedGeneration := s.generation + 1
    outcome
    previousRecordSha256 := lastRecord s.operations
    recordSha256 := operationRecordDigest sha256 c.operationId c.kind (c.requestSha256 sha256)
      (s.generation + 1) outcome (lastRecord s.operations) }

/-- The fence and generation checks and what follows them. -/
def apply : Except Raised TransitionResult := do
  raiseIf (c.fenceEpoch != s.fenceEpoch || c.fenceOwnerToken != s.fenceOwnerToken)
    ⟨.fenceRejected, "command fence does not own the durable boot state"⟩
  raiseIf (c.expectedGeneration != s.generation)
    ⟨.staleGeneration, "expected generation " ++ toString c.expectedGeneration ++
      ", current generation " ++ toString s.generation⟩
  let (changed, outcome) ← dispatch s c G
  let record := appliedRecord sha256 s c outcome
  record.check sha256
  let unsealed ← BootState.build { changed with
    generation := s.generation + 1
    operations := s.operations ++ [record] }
  let tag := G.stateAuthenticator.sealTag unsealed.authenticatedBytes
  checkText 1024 "authentication tag" tag
  let durable ← BootState.build { unsealed with authenticationTag := tag }
  raiseIf (!G.stateAuthenticator.verify durable.authenticatedBytes durable.authenticationTag)
    ⟨.stateAuthenticationRejected, "state authenticator did not verify its new seal"⟩
  pure ⟨durable, ⟨c.operationId, c.kind, s.generation + 1, outcome, false⟩,
    some ⟨s.controllerId, s.generation, s.commitmentSha256 sha256, durable.generation,
      durable.commitmentSha256 sha256⟩⟩

/-- `transition`. -/
def transition : Except Raised TransitionResult := do
  authenticate sha256 s G
  match s.operations.find? fun r => r.operationId == c.operationId with
  | some record => replay sha256 s c record
  | none => apply sha256 s c G

end Dispatch

/-! ## The initial state -/

structure Enrollment where
  activeRelease : ReleaseArtifact
  controllerId : String
  activeSlot : SlotName := .a
  slotAStableId : String := "root-a"
  slotBStableId : String := "root-b"
  dataCheckpoint : DataCheckpoint
  fenceEpoch : Int
  fenceOwnerToken : String
  essentialServices : List String := ["control-plane", "state-store"]

/-- `SlotIdentity(name, stable_id)`. -/
def SlotIdentity.build (name : SlotName) (stableId : String) : Except Raised SlotIdentity :=
  if h : isText 256 stableId then .ok ⟨name, stableId, h⟩
  else .error (invalid "stable_id must be non-empty printable ASCII")

/-- One of the two records of the initial state. -/
def Enrollment.slotRecord (e : Enrollment) (name : SlotName) (stableId : String) :
    Except Raised SlotRecord := do
  let identity ← SlotIdentity.build name stableId
  if name = e.activeSlot then SlotRecord.build identity (some e.activeRelease) .active
  else SlotRecord.build identity none .empty

/-- `initial_boot_state`. -/
def initialBootState (e : Enrollment) (G : TransitionGuards) : Except Raised BootState := do
  raiseIf (!e.activeRelease.trustedAndVerified)
    (invalid "the initial active release must be trusted and verified")
  raiseIf (e.slotAStableId == e.slotBStableId)
    (invalid "A and B cannot alias the same physical stable ID")
  let identity := e.activeRelease.identity
  raiseIf (e.dataCheckpoint.writerReleaseManifestSha256 != identity.manifestSha256 ||
      e.dataCheckpoint.schemaId != identity.dataCompatibilityId ||
      e.dataCheckpoint.writerFenceEpoch != e.fenceEpoch ||
      e.dataCheckpoint.writerOwnerToken != e.fenceOwnerToken)
    ⟨.externalEvidenceRejected,
      "initial checkpoint is not bound to the active release, schema, and fence"⟩
  raiseIf (!G.dataCheckpointOracle.verifyDurable e.dataCheckpoint)
    ⟨.externalEvidenceRejected, "initial checkpoint durability receipt is not trusted"⟩
  raiseIf (!G.dataCheckpointOracle.isReadable e.dataCheckpoint identity)
    ⟨.externalEvidenceRejected, "active release cannot read the initial checkpoint"⟩
  let services ← normalized "essential service" e.essentialServices
  let slotA ← e.slotRecord .a e.slotAStableId
  let slotB ← e.slotRecord .b e.slotBStableId
  let state ← BootState.build
    { controllerId := e.controllerId
      slots := (slotA, slotB)
      activeSlot := e.activeSlot
      selectedSlot := e.activeSlot
      phase := .idle
      candidate := none
      targetSlot := none
      minimumReleaseSequence := identity.releaseSequence
      trialFailures := 0
      essentialServices := services
      currentAttemptNonce := none
      usedAttemptNonces := []
      bootObservation := none
      healthAcknowledgement := none
      dataCheckpoint := e.dataCheckpoint
      fenceEpoch := e.fenceEpoch
      fenceOwnerToken := e.fenceOwnerToken
      retiredFenceOwnerTokens := []
      tamperObservations := [] }
  let tag := G.stateAuthenticator.sealTag state.authenticatedBytes
  checkText 1024 "authentication tag" tag
  let authenticated ← BootState.build { state with authenticationTag := tag }
  raiseIf (!G.stateAuthenticator.verify authenticated.authenticatedBytes
      authenticated.authenticationTag)
    ⟨.stateAuthenticationRejected, "state authenticator did not verify the initial seal"⟩
  pure authenticated

end LumaOS.Boot
