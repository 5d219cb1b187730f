import LumaOS.Base.Run
import LumaOS.Json.Injective
import Mathlib.Data.List.Dedup

/-!
# Values of A/B boot control

Model of `boot_control.py:18-372` and of the values at the end of the file: the enumerations, the
frozen dataclasses and the canonical JSON of each. The `isinstance` checks are the types here.

A value that only callers build (`ReleaseIdentity`, `SlotIdentity`, `DataCheckpoint`,
`BootObservation`) carries what its `__post_init__` checks as a field. A value that the controller
builds itself has a `check`, which raises what `__post_init__` raises.

Texts are printable ASCII, so that `json.dumps(..., ensure_ascii=True)` and `serde_json` write them
alike, Python orders them as Lean does, and `strip` can only find a space.
-/

namespace LumaOS.Boot

open LumaOS.Base LumaOS.Text LumaOS.Json

/-! ## Exceptions -/

/-- `BootControlValidationError` and the subclasses of `BootControlError`. -/
inductive ErrorKind where
  | validation
  | invalidTransition
  | staleGeneration
  | fenceRejected
  | idempotencyConflict
  | tamperRejected
  | stateAuthenticationRejected
  | monotonicAnchorRejected
  | externalEvidenceRejected
  | fallbackReadabilityRejected
deriving DecidableEq

structure Raised where
  kind : ErrorKind
  message : String
deriving DecidableEq

/-- `BootControlValidationError(message)`. -/
def invalid (message : String) : Raised := ⟨.validation, message⟩

/-! ## Checks of single values -/

/-- `ord(character) < 0x20 or ord(character) > 0x7E` fails. -/
def printable (c : Char) : Bool := 0x20 ≤ c.toNat && c.toNat ≤ 0x7E

/-- The condition of `_text`. -/
def isText (maximum : Nat) (value : String) : Bool :=
  !value.toList.isEmpty && value.toList.head? != some ' ' && value.toList.getLast? != some ' ' &&
    value.toList.length ≤ maximum && value.toList.all printable

/-- `_text`. -/
def checkText (maximum : Nat) (field value : String) : Except Raised Unit :=
  raiseIf (!isText maximum value) (invalid (field ++ " must be non-empty printable ASCII"))

/-- The condition of `_digest`. -/
def isDigest (value : String) : Bool :=
  isText 64 value && value.toList.length == 64 && value.toList.all lowerHex

/-- `_digest`. -/
def checkDigest (field value : String) : Except Raised Unit := do
  checkText 64 field value
  raiseIf (value.toList.length != 64 || !value.toList.all lowerHex)
    (invalid (field ++ " must be a lowercase SHA-256 digest"))

/-- The condition of `_nonnegative`. -/
def isNonnegative (value : Int) : Bool := 0 ≤ value && value < 2 ^ 63

/-- `_nonnegative`. -/
def checkNonnegative (field : String) (value : Int) : Except Raised Unit :=
  raiseIf (!isNonnegative value)
    (invalid (field ++ " must be a non-negative signed 64-bit integer"))

/-- The condition of `_positive`. -/
def isPositive (value : Int) : Bool := isNonnegative value && value != 0

/-- `_positive`. -/
def checkPositive (field : String) (value : Int) : Except Raised Unit := do
  checkNonnegative field value
  raiseIf (value == 0) (invalid (field ++ " must be positive"))

/-- `_text(value, field)` for each of the values. -/
def checkTexts (field : String) : List String → Except Raised Unit
  | [] => .ok ()
  | value :: values => do
    checkText 256 field value
    checkTexts field values

/-- `tuple(sorted({_text(value, field) for value in values}))`. -/
def normalized (field : String) (values : List String) : Except Raised (List String) := do
  checkTexts field values
  pure (values.dedup.insertionSort (· ≤ ·))

section Checks

variable {maximum : Nat} {field value : String} {u : Unit} {n : Int}

theorem checkText_eq_ok : checkText maximum field value = .ok u ↔ isText maximum value = true := by
  rw [checkText, raiseIf_eq_ok, Bool.not_eq_false']

/-- A literal is the text of its characters, which `decide` reads without decoding it. -/
theorem isText_of_chars {cs : List Char} (hvalue : String.ofList cs = value)
    (h : (!cs.isEmpty && cs.head? != some ' ' && cs.getLast? != some ' ' &&
      cs.length ≤ maximum && cs.all printable) = true) : isText maximum value = true := by
  subst hvalue
  rw [isText, String.toList_ofList]
  exact h

theorem isText_mono {m n : Nat} (h : isText m value = true) (hmn : m ≤ n) :
    isText n value = true := by
  simp only [isText, Bool.and_eq_true, decide_eq_true_eq] at h ⊢
  exact ⟨⟨h.1.1, h.1.2.trans hmn⟩, h.2⟩

theorem isText_append {k m n : Nat} {v w : String} (hv : isText m v = true)
    (hw : isText n w = true) (hk : m + n ≤ k) : isText k (v ++ w) = true := by
  simp only [isText, Bool.and_eq_true, Bool.not_eq_true', List.isEmpty_eq_false_iff, bne_iff_ne,
    decide_eq_true_eq] at hv hw
  obtain ⟨⟨⟨⟨hvne, hvhead⟩, -⟩, hvlen⟩, hvall⟩ := hv
  obtain ⟨⟨⟨⟨hwne, -⟩, hwlast⟩, hwlen⟩, hwall⟩ := hw
  simp only [isText, String.toList_append, Bool.and_eq_true, Bool.not_eq_true',
    List.isEmpty_eq_false_iff, bne_iff_ne, decide_eq_true_eq, List.length_append, List.all_append]
  refine ⟨⟨⟨⟨by simp [hvne], ?_⟩, ?_⟩, by omega⟩, hvall, hwall⟩
  · rwa [List.head?_append_of_ne_nil _ hvne]
  · rwa [List.getLast?_append_of_ne_nil _ hwne]

theorem checkDigest_eq_ok : checkDigest field value = .ok u ↔ isDigest value = true := by
  simp only [checkDigest, isDigest, bind_eq_ok, checkText_eq_ok, raiseIf_eq_ok,
    Bool.or_eq_false_iff, Bool.and_eq_true, bne_eq_false_iff_eq, Bool.not_eq_false', beq_iff_eq,
    exists_const, and_assoc]

theorem checkNonnegative_eq_ok : checkNonnegative field n = .ok u ↔ isNonnegative n = true := by
  rw [checkNonnegative, raiseIf_eq_ok, Bool.not_eq_false']

theorem checkPositive_eq_ok : checkPositive field n = .ok u ↔ isPositive n = true := by
  simp only [checkPositive, isPositive, bind_eq_ok, checkNonnegative_eq_ok, raiseIf_eq_ok,
    Bool.and_eq_true, beq_eq_false_iff_ne, bne_iff_ne, exists_const]

theorem isNonnegative_iff : isNonnegative n = true ↔ 0 ≤ n ∧ n < 2 ^ 63 := by
  simp [isNonnegative]

theorem isPositive_iff : isPositive n = true ↔ 0 < n ∧ n < 2 ^ 63 := by
  simp only [isPositive, Bool.and_eq_true, isNonnegative_iff, bne_iff_ne]
  omega

theorem checkTexts_eq_ok {values : List String} : checkTexts field values = .ok u ↔
    ∀ value ∈ values, isText 256 value = true := by
  induction values with
  | nil => simp [checkTexts]
  | cons value values ih =>
    simp only [checkTexts, bind_eq_ok, checkText_eq_ok, ih, exists_const, List.forall_mem_cons]

theorem normalized_eq_ok {values result : List String} : normalized field values = .ok result ↔
    (∀ value ∈ values, isText 256 value = true) ∧
      values.dedup.insertionSort (· ≤ ·) = result := by
  simp only [normalized, bind_eq_ok, checkTexts_eq_ok, pure_eq_ok, exists_const]

theorem printable_of_lowerHex {c : Char} (h : lowerHex c = true) :
    printable c = true ∧ c ≠ ' ' := by
  have hrange : 48 ≤ c.toNat ∧ c.toNat ≤ 102 := by
    obtain ⟨_, _, -⟩ | ⟨_, _, -⟩ := lowerHex_cases h <;> omega
  refine ⟨by simp only [printable, Bool.and_eq_true, decide_eq_true_eq]; omega, ?_⟩
  rintro rfl
  exact absurd hrange.1 (by decide)

/-- A list of 64 hexadecimal digits is a digest. -/
theorem isDigest_ofList {cs : List Char} (hlen : cs.length = 64)
    (hall : ∀ c ∈ cs, lowerHex c = true) : isDigest (String.ofList cs) = true := by
  have hne : ∀ o, (o = cs.head? ∨ o = cs.getLast?) → o ≠ some ' ' := by
    rintro o ho rfl
    have hmem : ' ' ∈ cs := by
      rcases ho with ho | ho
      · exact List.mem_of_head? ho.symm
      · exact List.mem_of_getLast? ho.symm
    exact absurd (hall _ hmem) (by decide)
  simp only [isDigest, isText, String.toList_ofList, Bool.and_eq_true, bne_iff_ne, hlen,
    List.all_eq_true, beq_self_eq_true, decide_eq_true_eq, le_refl, and_true]
  refine ⟨⟨⟨⟨?_, hne _ (Or.inl rfl)⟩, hne _ (Or.inr rfl)⟩, ?_⟩, hall⟩
  · cases cs with
    | nil => exact absurd hlen (by decide)
    | cons => rfl
  · exact fun c hc => (printable_of_lowerHex (hall c hc)).1

theorem isDigest_hex (v : Vector UInt8 32) : isDigest (hex v.toList) = true := by
  refine isDigest_ofList ?_ fun c hc => ?_
  · rw [List.length_flatMap]
    simp
  · obtain ⟨n, hn, rfl⟩ := mem_hex_digits hc
    exact (hexDigit_ascii n hn).2

end Checks

/-! ## Enumerations -/

inductive SlotName where
  | a
  | b
deriving DecidableEq

inductive SignatureStatus where
  | missing
  | untrusted
  | trusted
deriving DecidableEq

inductive IntegrityStatus where
  | unknown
  | mismatch
  | verified
deriving DecidableEq

inductive SlotStatus where
  | empty
  | active
  | staged
  | retained
  | rejected
deriving DecidableEq

inductive UpdatePhase where
  | idle
  | download
  | verify
  | write
  | select
  | firstBoot
deriving DecidableEq

inductive CommandKind where
  | beginDownload
  | downloadComplete
  | verifyComplete
  | writeComplete
  | selectTrial
  | beginFirstBoot
  | recordBootObservation
  | trialFailure
  | ackEssentialHealth
  | commitTrial
  | ackDataCheckpoint
  | reconcilePowerLoss
  | rotateFence
deriving DecidableEq

def SlotName.value : SlotName → String
  | .a => "A"
  | .b => "B"

def SignatureStatus.value : SignatureStatus → String
  | .missing => "missing"
  | .untrusted => "untrusted"
  | .trusted => "trusted"

def IntegrityStatus.value : IntegrityStatus → String
  | .unknown => "unknown"
  | .mismatch => "mismatch"
  | .verified => "verified"

def SlotStatus.value : SlotStatus → String
  | .empty => "empty"
  | .active => "active"
  | .staged => "staged"
  | .retained => "retained"
  | .rejected => "rejected"

def UpdatePhase.value : UpdatePhase → String
  | .idle => "idle"
  | .download => "download"
  | .verify => "verify"
  | .write => "write"
  | .select => "select"
  | .firstBoot => "first-boot"

def CommandKind.value : CommandKind → String
  | .beginDownload => "begin-download"
  | .downloadComplete => "download-complete"
  | .verifyComplete => "verify-complete"
  | .writeComplete => "write-complete"
  | .selectTrial => "select-trial"
  | .beginFirstBoot => "begin-first-boot"
  | .recordBootObservation => "record-boot-observation"
  | .trialFailure => "trial-failure"
  | .ackEssentialHealth => "ack-essential-health"
  | .commitTrial => "commit-trial"
  | .ackDataCheckpoint => "ack-data-checkpoint"
  | .reconcilePowerLoss => "reconcile-power-loss"
  | .rotateFence => "rotate-fence"

theorem SlotName.value_injective : Function.Injective SlotName.value := by
  intro x y h
  cases x <;> cases y <;> first | rfl | exact absurd h (by decide)

theorem SignatureStatus.value_injective : Function.Injective SignatureStatus.value := by
  intro x y h
  cases x <;> cases y <;> first | rfl | exact absurd h (by decide)

theorem IntegrityStatus.value_injective : Function.Injective IntegrityStatus.value := by
  intro x y h
  cases x <;> cases y <;> first | rfl | exact absurd h (by decide)

theorem CommandKind.value_injective : Function.Injective CommandKind.value := by
  intro x y h
  cases x <;> cases y <;> first | rfl | exact absurd h (by decide)

/-! ## Releases and slots -/

structure ReleaseIdentity where
  releaseId : String
  version : String
  releaseSequence : Int
  manifestSha256 : String
  rootSha256 : String
  signerKeyId : String
  dataCompatibilityId : String
  valid : isText 256 releaseId ∧ isText 256 version ∧ isPositive releaseSequence ∧
    isDigest manifestSha256 ∧ isDigest rootSha256 ∧ isText 256 signerKeyId ∧
    isText 256 dataCompatibilityId
deriving DecidableEq

structure ReleaseArtifact where
  identity : ReleaseIdentity
  signatureStatus : SignatureStatus
  integrityStatus : IntegrityStatus
deriving DecidableEq

def ReleaseArtifact.trustedAndVerified (a : ReleaseArtifact) : Bool :=
  a.signatureStatus == .trusted && a.integrityStatus == .verified

structure SlotIdentity where
  name : SlotName
  stableId : String
  valid : isText 256 stableId
deriving DecidableEq

structure SlotRecord where
  identity : SlotIdentity
  artifact : Option ReleaseArtifact
  status : SlotStatus
deriving DecidableEq

/-- `SlotRecord.__post_init__`. -/
def SlotRecord.check (r : SlotRecord) : Except Raised Unit :=
  if r.status = .empty then
    raiseIf r.artifact.isSome (invalid "an empty slot cannot contain a release")
  else match r.artifact with
    | none => .error (invalid "a non-empty slot requires a release artifact")
    | some artifact =>
      raiseIf ([SlotStatus.active, .staged, .retained].contains r.status &&
          !artifact.trustedAndVerified)
        (invalid "bootable slot state requires trusted verified content")

/-- `SlotRecord(...)`. -/
def SlotRecord.build (identity : SlotIdentity) (artifact : Option ReleaseArtifact)
    (status : SlotStatus) : Except Raised SlotRecord := do
  SlotRecord.check ⟨identity, artifact, status⟩
  pure ⟨identity, artifact, status⟩

/-! ## Evidence -/

structure DataCheckpoint where
  generation : Int
  sha256 : String
  schemaId : String
  writerReleaseManifestSha256 : String
  writerFenceEpoch : Int
  writerOwnerToken : String
  durabilityReceiptSha256 : String
  valid : isNonnegative generation ∧ isDigest sha256 ∧ isText 256 schemaId ∧
    isDigest writerReleaseManifestSha256 ∧ isPositive writerFenceEpoch ∧
    isText 256 writerOwnerToken ∧ isDigest durabilityReceiptSha256
deriving DecidableEq

structure BootObservation where
  attemptNonce : String
  actualSlot : SlotName
  releaseManifestSha256 : String
  releaseRootSha256 : String
  signatureStatus : SignatureStatus
  integrityStatus : IntegrityStatus
  fenceEpoch : Int
  fenceOwnerToken : String
  persistenceReceiptSha256 : String
  valid : isText 256 attemptNonce ∧ isDigest releaseManifestSha256 ∧ isDigest releaseRootSha256 ∧
    isPositive fenceEpoch ∧ isText 256 fenceOwnerToken ∧ isDigest persistenceReceiptSha256
deriving DecidableEq

def BootObservation.trustedAndVerified (o : BootObservation) : Bool :=
  o.signatureStatus == .trusted && o.integrityStatus == .verified

structure EssentialHealthAcknowledgement where
  attemptNonce : String
  slot : SlotName
  releaseManifestSha256 : String
  observationReceiptSha256 : String
  healthyServices : List String
  acknowledgedAtGeneration : Int
deriving DecidableEq

/-- `EssentialHealthAcknowledgement.__post_init__`. -/
def EssentialHealthAcknowledgement.check (h : EssentialHealthAcknowledgement) :
    Except Raised Unit := do
  checkText 256 "health attempt nonce" h.attemptNonce
  checkDigest "health release manifest" h.releaseManifestSha256
  checkDigest "health observation receipt" h.observationReceiptSha256
  raiseIf h.healthyServices.isEmpty (invalid "health services must be a non-empty tuple")
  let services ← normalized "healthy service" h.healthyServices
  raiseIf (services != h.healthyServices)
    (invalid "healthy services must be sorted and unique")
  checkNonnegative "health acknowledgement generation" h.acknowledgedAtGeneration

structure TamperObservation where
  operationId : String
  phase : UpdatePhase
  targetSlot : SlotName
  attemptNonce : Option String
  expectedManifestSha256 : String
  expectedRootSha256 : String
  observedManifestSha256 : String
  observedRootSha256 : String
  observedSignatureStatus : SignatureStatus
  observedIntegrityStatus : IntegrityStatus
  fenceEpoch : Int
  reason : String
deriving DecidableEq

/-- `TamperObservation.__post_init__`. -/
def TamperObservation.check (t : TamperObservation) : Except Raised Unit := do
  checkText 256 "tamper operation_id" t.operationId
  raiseIf (!(t.phase == .verify || t.phase == .firstBoot))
    (invalid "tamper phase must be verify or first-boot")
  checkTexts "tamper attempt nonce" t.attemptNonce.toList
  checkDigest "expected manifest" t.expectedManifestSha256
  checkDigest "expected root" t.expectedRootSha256
  checkDigest "observed manifest" t.observedManifestSha256
  checkDigest "observed root" t.observedRootSha256
  checkPositive "tamper fence epoch" t.fenceEpoch
  checkText 256 "tamper reason" t.reason

/-! ## Canonical JSON

Every dictionary of the source already lists its keys in order, so `sort_keys` keeps it. -/

/-- `_identity_document`. -/
def identityDocument (i : ReleaseIdentity) : Value :=
  .object [
    ("data_compatibility_id", .string i.dataCompatibilityId),
    ("manifest_sha256", .string i.manifestSha256),
    ("release_id", .string i.releaseId),
    ("release_sequence", .number i.releaseSequence),
    ("root_sha256", .string i.rootSha256),
    ("signer_key_id", .string i.signerKeyId),
    ("version", .string i.version)]

/-- `_artifact_document` of an artifact; `None` is `optional`. -/
def artifactDocument (a : ReleaseArtifact) : Value :=
  .object [
    ("identity", identityDocument a.identity),
    ("integrity_status", .string a.integrityStatus.value),
    ("signature_status", .string a.signatureStatus.value)]

/-- `_checkpoint_document`. -/
def checkpointDocument (c : DataCheckpoint) : Value :=
  .object [
    ("durability_receipt_sha256", .string c.durabilityReceiptSha256),
    ("generation", .number c.generation),
    ("schema_id", .string c.schemaId),
    ("sha256", .string c.sha256),
    ("writer_fence_epoch", .number c.writerFenceEpoch),
    ("writer_owner_token", .string c.writerOwnerToken),
    ("writer_release_manifest_sha256", .string c.writerReleaseManifestSha256)]

/-- `_observation_document`. -/
def observationDocument (o : BootObservation) : Value :=
  .object [
    ("actual_slot", .string o.actualSlot.value),
    ("attempt_nonce", .string o.attemptNonce),
    ("fence_epoch", .number o.fenceEpoch),
    ("fence_owner_token", .string o.fenceOwnerToken),
    ("integrity_status", .string o.integrityStatus.value),
    ("persistence_receipt_sha256", .string o.persistenceReceiptSha256),
    ("release_manifest_sha256", .string o.releaseManifestSha256),
    ("release_root_sha256", .string o.releaseRootSha256),
    ("signature_status", .string o.signatureStatus.value)]

def healthDocument (h : EssentialHealthAcknowledgement) : Value :=
  .object [
    ("acknowledged_at_generation", .number h.acknowledgedAtGeneration),
    ("attempt_nonce", .string h.attemptNonce),
    ("healthy_services", .array (h.healthyServices.map .string)),
    ("observation_receipt_sha256", .string h.observationReceiptSha256),
    ("release_manifest_sha256", .string h.releaseManifestSha256),
    ("slot", .string h.slot.value)]

def tamperDocument (t : TamperObservation) : Value :=
  .object [
    ("attempt_nonce", optional .string t.attemptNonce),
    ("expected_manifest_sha256", .string t.expectedManifestSha256),
    ("expected_root_sha256", .string t.expectedRootSha256),
    ("fence_epoch", .number t.fenceEpoch),
    ("observed_integrity_status", .string t.observedIntegrityStatus.value),
    ("observed_manifest_sha256", .string t.observedManifestSha256),
    ("observed_root_sha256", .string t.observedRootSha256),
    ("observed_signature_status", .string t.observedSignatureStatus.value),
    ("operation_id", .string t.operationId),
    ("phase", .string t.phase.value),
    ("reason", .string t.reason),
    ("target_slot", .string t.targetSlot.value)]

def slotDocument (r : SlotRecord) : Value :=
  .object [
    ("artifact", optional artifactDocument r.artifact),
    ("name", .string r.identity.name.value),
    ("stable_id", .string r.identity.stableId),
    ("status", .string r.status.value)]

/-- A document determines its value when `None` and every value are written apart. -/
theorem optional_injective {α : Type} {toJson : α → Value} (h : Function.Injective toJson)
    (hnull : ∀ a, toJson a ≠ .null) : Function.Injective (optional toJson) := by
  intro x y hxy
  cases x with
  | none =>
    cases y with
    | none => rfl
    | some b => exact absurd hxy.symm (hnull b)
  | some a =>
    cases y with
    | none => exact absurd hxy (hnull a)
    | some b => rw [h hxy]

theorem identityDocument_injective : Function.Injective identityDocument := by
  intro x y h
  cases x
  cases y
  simp only [identityDocument, Value.object.injEq, List.cons.injEq, Prod.mk.injEq,
    Value.string.injEq, Value.number.injEq, true_and, and_true] at h
  simp only [ReleaseIdentity.mk.injEq]
  exact ⟨h.2.2.1, h.2.2.2.2.2.2, h.2.2.2.1, h.2.1, h.2.2.2.2.1, h.2.2.2.2.2.1, h.1⟩

theorem artifactDocument_injective : Function.Injective artifactDocument := by
  intro x y h
  cases x
  cases y
  simp only [artifactDocument, Value.object.injEq, List.cons.injEq, Prod.mk.injEq,
    Value.string.injEq, true_and, and_true] at h
  simp only [ReleaseArtifact.mk.injEq]
  exact ⟨identityDocument_injective h.1, SignatureStatus.value_injective h.2.2,
    IntegrityStatus.value_injective h.2.1⟩

theorem checkpointDocument_injective : Function.Injective checkpointDocument := by
  intro x y h
  cases x
  cases y
  simp only [checkpointDocument, Value.object.injEq, List.cons.injEq, Prod.mk.injEq,
    Value.string.injEq, Value.number.injEq, true_and, and_true] at h
  simp only [DataCheckpoint.mk.injEq]
  exact ⟨h.2.1, h.2.2.2.1, h.2.2.1, h.2.2.2.2.2.2, h.2.2.2.2.1, h.2.2.2.2.2.1, h.1⟩

theorem observationDocument_injective : Function.Injective observationDocument := by
  intro x y h
  cases x
  cases y
  simp only [observationDocument, Value.object.injEq, List.cons.injEq, Prod.mk.injEq,
    Value.string.injEq, Value.number.injEq, true_and, and_true] at h
  simp only [BootObservation.mk.injEq]
  obtain ⟨hslot, hnonce, hepoch, howner, hintegrity, hreceipt, hmanifest, hroot, hsignature⟩ := h
  exact ⟨hnonce, SlotName.value_injective hslot, hmanifest, hroot,
    SignatureStatus.value_injective hsignature, IntegrityStatus.value_injective hintegrity, hepoch,
    howner, hreceipt⟩

end LumaOS.Boot
