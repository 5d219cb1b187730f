import LumaOS.Governance.ModelFormats

/-!
# Model trust, catalogs and their admission

Model of `model_trust.rs:277-287, 361-458, 1850-1993, 1995-2046, 2081-2440`: signing trust bundles,
profile catalogs, the approval quorum of a release, and the two operations `publish` and `admit` on
the anchored state. Signatures, root policies and packs are verified elsewhere.

`Statement::request` rebuilds a `ReleaseRequest` through JSON; field by field it is the statement
with its artifact type replaced. `publish` accepts an exact replay of the anchored bundle without
a change, which its caller turns into `Ok(false)`.
-/

namespace LumaOS.Governance

open LumaOS.Base LumaOS.Text LumaOS.Json

-- the instance trees of the longer validators have more nodes than the default allows
set_option synthInstance.maxSize 100000

/-- `Option<String>` without `skip_serializing_if`. -/
def nullable (value : Option String) : Value := (value.map Value.string).getD .null

def modelDomain : String := "luma-models"

/-- `model_trust::role`. -/
def signingRole (purpose : String) : Result String :=
  if purpose == "model-pack-manifest" then .ok "model-pack-signer"
  else if purpose == "model-pack-execution-certification" ||
      purpose == "model-pack-interactive-certification" then .ok "model-pack-certification-signer"
  else if purpose == "model-profile-catalog-lab" then .ok "model-profile-catalog-lab-signer"
  else if purpose == "model-profile-catalog-production" then
    .ok "model-profile-catalog-production-signer"
  else refuse "unknown model signing purpose"

instance noPanic_signingRole (purpose : String) : NoPanic (signingRole purpose) := by
  unfold signingRole
  infer_instance

/-! ## Trust bundles -/

structure TrustKey where
  environment : String
  keyId : String
  notAfter : String
  notBefore : String
  publicKey : String
  publicKeyEncoding : String
  purposes : List String
  revocationReason : Option String
  revokedAt : Option String
  role : String
deriving DecidableEq, Repr

structure TrustBundle where
  artifactType : String
  bundleSequence : UInt64
  environment : String
  issuedAt : String
  keys : List TrustKey
  notAfter : String
  notBefore : String
  policyVersion : String
  previousBundleSha256 : Option String
  rootKeyId : String
  schemaVersion : Nat
  trustDomain : String
deriving DecidableEq, Repr

/-- `model_trust::SignedTrust`. -/
structure ModelTrust where
  bundle : TrustBundle
  schemaVersion : Nat
  signature : String
  signatureAlgorithm : String
  signatureEncoding : String
deriving DecidableEq, Repr

def TrustKey.toJson (k : TrustKey) : Value :=
  .object [("environment", .string k.environment), ("key_id", .string k.keyId),
    ("not_after", .string k.notAfter), ("not_before", .string k.notBefore),
    ("public_key", .string k.publicKey), ("public_key_encoding", .string k.publicKeyEncoding),
    ("purposes", .array (k.purposes.map .string)),
    ("revocation_reason", nullable k.revocationReason), ("revoked_at", nullable k.revokedAt),
    ("role", .string k.role)]

def TrustBundle.toJson (b : TrustBundle) : Value :=
  .object [("artifact_type", .string b.artifactType),
    ("bundle_sequence", .number b.bundleSequence.toNat), ("environment", .string b.environment),
    ("issued_at", .string b.issuedAt), ("keys", .array (b.keys.map TrustKey.toJson)),
    ("not_after", .string b.notAfter), ("not_before", .string b.notBefore),
    ("policy_version", .string b.policyVersion),
    ("previous_bundle_sha256", nullable b.previousBundleSha256),
    ("root_key_id", .string b.rootKeyId), ("schema_version", .number b.schemaVersion),
    ("trust_domain", .string b.trustDomain)]

namespace ModelTrust

def toJson (s : ModelTrust) : Value :=
  .object [("bundle", s.bundle.toJson), ("schema_version", .number s.schemaVersion),
    ("signature", .string s.signature), ("signature_algorithm", .string s.signatureAlgorithm),
    ("signature_encoding", .string s.signatureEncoding)]

/-- The predecessor of a bundle: none for the first, a digest for the others. -/
def predecessorStep (b : TrustBundle) : Result Unit :=
  if b.bundleSequence == 1 then
    refuseIf b.previousBundleSha256.isSome "genesis model trust cannot carry a predecessor"
  else do
    let digest ← okOr b.previousBundleSha256 "model trust predecessor missing"
    modelHash digest

/-- One signing purpose of a key. -/
def purposeStep (b : TrustBundle) (k : TrustKey) (p : String) : Result Unit := do
  let role ← signingRole p
  refuseIf (role != k.role || (p == "model-profile-catalog-lab" && b.environment != "lab") ||
      (p == "model-profile-catalog-production" && b.environment != "production"))
    "model leaf role/purpose/environment mismatch"

/-- The revocation of a key: time and reason together, inside its validity. -/
def revocationStep (k : TrustKey) (start finish : Int) : Result Unit := do
  refuseIf (k.revokedAt.isSome != k.revocationReason.isSome)
    "model revocation time and reason must be paired"
  match k.revokedAt with
  | none => pure ()
  | some v => do
    let t ← timestamp v
    refuseIf (t < start || t ≥ finish) "model revocation escapes leaf validity"
    let reason ← okOr k.revocationReason "missing revocation reason"
    modelAscii 256 reason

/-- One key of a bundle valid in `[start, finish)`; the accumulator is the keys before it with
their decoded public keys. -/
def keyStep (b : TrustBundle) (start finish : Int) (seen : List (TrustKey × Bytes))
    (k : TrustKey) : Result (List (TrustKey × Bytes)) := do
  let message := "model leaf identity/order/environment/validity mismatch"
  modelAscii 256 k.keyId
  let validity ← dates k.notBefore k.notAfter
  refuseIf (k.environment != b.environment || validity.1 < start || validity.2 > finish ||
    k.publicKeyEncoding != "raw-ed25519-base64" || seen.any (fun e => e.1.keyId == k.keyId)) message
  let material ← decode64 32 k.publicKey
  refuseIf (seen.any (fun e => e.2 == material) ||
    seen.getLast?.any (fun e => k.keyId ≤ e.1.keyId) ||
    k.purposes.isEmpty || !ascending k.purposes) message
  k.purposes.forM (purposeStep b k)
  revocationStep k validity.1 validity.2
  pure (seen ++ [(k, material)])

instance noPanic_predecessorStep (b : TrustBundle) : NoPanic (predecessorStep b) := by
  unfold predecessorStep
  infer_instance

instance noPanic_purposeStep (b : TrustBundle) (k : TrustKey) (p : String) :
    NoPanic (purposeStep b k p) := by
  unfold purposeStep
  infer_instance

instance noPanic_revocationStep (k : TrustKey) (start finish : Int) :
    NoPanic (revocationStep k start finish) := by
  unfold revocationStep
  cases k.revokedAt with
  | none | some v => infer_instance

instance noPanic_keyStep (b : TrustBundle) (start finish : Int) (seen : List (TrustKey × Bytes))
    (k : TrustKey) : NoPanic (keyStep b start finish seen k) := by
  unfold keyStep
  infer_instance

/-- `SignedTrust::validate`. -/
def validate (s : ModelTrust) : Result Unit := do
  let b := s.bundle
  let message := "invalid frozen model trust schema/domain/bounds"
  modelEnvironment b.environment
  modelPositive b.bundleSequence
  refuseIf (s.schemaVersion != 1 || b.schemaVersion != 1 || s.signatureAlgorithm != "Ed25519" ||
    s.signatureEncoding != "base64" || b.artifactType != "luma-os-signing-trust-bundle" ||
    b.trustDomain != modelDomain || b.keys.isEmpty || b.keys.length > 256) message
  let bytes ← canonical s.toJson
  refuseIf (bytes.length > 1024 * 1024) message
  let _ ← decode64 64 s.signature
  modelAscii 256 b.policyVersion
  modelAscii 256 b.rootKeyId
  predecessorStep b
  let validity ← dates b.notBefore b.notAfter
  let issued ← timestamp b.issuedAt
  refuseIf (issued < validity.1 || issued ≥ validity.2) "model trust issue time escapes validity"
  let _ ← b.keys.foldlM (keyStep b validity.1 validity.2) []
  pure ()

instance noPanic_validate (s : ModelTrust) : NoPanic s.validate := by
  unfold validate
  infer_instance

/-- `SignedTrust::digest`. -/
def digest (sha256 : Bytes → Vector UInt8 32) (s : ModelTrust) : Result String :=
  modelDigest sha256 s.toJson

instance noPanic_digest (sha256 : Bytes → Vector UInt8 32) (s : ModelTrust) :
    NoPanic (s.digest sha256) :=
  noPanic_modelDigest sha256 s.toJson

end ModelTrust

/-! ## Profile catalogs -/

/-- `model_trust::Reservation`. -/
structure MemoryReservation where
  domain : String
  bytes : UInt64
deriving DecidableEq, Repr

structure ModelProfile where
  availability : String
  certificationState : String
  contextTokens : UInt64
  developmentState : String
  executionMode : String
  installBytes : UInt64
  kind : String
  loadReservations : List MemoryReservation
  minimumAcceleratorMemoryBytes : UInt64
  minimumHostRamBytes : UInt64
  modelPackManifestSha256 : String
  parameterActiveMax : UInt64
  parameterActiveMin : UInt64
  parameterTotal : UInt64
  profileId : String
  remoteFallback : Bool
  runtimeTupleSha256 : String
  serveReservations : List MemoryReservation
  storagePeakBytes : UInt64
  verificationState : String
deriving DecidableEq, Repr

structure ManualProfile where
  kind : String
  profileId : String
  remoteFallback : Bool
deriving DecidableEq, Repr

inductive SelectableProfile where
  | manual (p : ManualProfile)
  | model (p : ModelProfile)
deriving DecidableEq, Repr

structure ModelCatalog where
  catalogId : String
  profiles : List SelectableProfile
  schemaVersion : Nat
deriving DecidableEq, Repr

def MemoryReservation.toJson (r : MemoryReservation) : Value :=
  .object [("domain", .string r.domain), ("bytes", .number r.bytes.toNat)]

def ModelProfile.toJson (p : ModelProfile) : Value :=
  .object [("availability", .string p.availability),
    ("certification_state", .string p.certificationState),
    ("context_tokens", .number p.contextTokens.toNat),
    ("development_state", .string p.developmentState), ("execution_mode", .string p.executionMode),
    ("install_bytes", .number p.installBytes.toNat), ("kind", .string p.kind),
    ("load_reservations", .array (p.loadReservations.map MemoryReservation.toJson)),
    ("minimum_accelerator_memory_bytes", .number p.minimumAcceleratorMemoryBytes.toNat),
    ("minimum_host_ram_bytes", .number p.minimumHostRamBytes.toNat),
    ("model_pack_manifest_sha256", .string p.modelPackManifestSha256),
    ("parameter_active_max", .number p.parameterActiveMax.toNat),
    ("parameter_active_min", .number p.parameterActiveMin.toNat),
    ("parameter_total", .number p.parameterTotal.toNat), ("profile_id", .string p.profileId),
    ("remote_fallback", .bool p.remoteFallback),
    ("runtime_tuple_sha256", .string p.runtimeTupleSha256),
    ("serve_reservations", .array (p.serveReservations.map MemoryReservation.toJson)),
    ("storage_peak_bytes", .number p.storagePeakBytes.toNat),
    ("verification_state", .string p.verificationState)]

def SelectableProfile.toJson : SelectableProfile → Value
  | .manual p => .object [("kind", .string p.kind), ("profile_id", .string p.profileId),
      ("remote_fallback", .bool p.remoteFallback)]
  | .model p => p.toJson

/-- `SelectableProfile::id`. -/
def SelectableProfile.id : SelectableProfile → String
  | .manual p => p.profileId
  | .model p => p.profileId

namespace ModelProfile

/-- One reservation; the accumulator is the domains before it. -/
def reservationStep (p : ModelProfile) (seen : List String) (r : MemoryReservation) :
    Result (List String) := do
  modelPositive r.bytes
  refuseIf (!(r.domain == "host" || r.domain == "accelerator") || seen.contains r.domain ||
      seen.getLast?.any (fun d => r.domain ≤ d))
    "model reservations require unique canonical memory domains"
  let limit := if r.domain == "host" then p.minimumHostRamBytes else p.minimumAcceleratorMemoryBytes
  refuseIf (r.bytes > limit) "model profile understates phase reservation"
  pure (seen ++ [r.domain])

/-- The reservations of one phase. -/
def reservationsStep (p : ModelProfile) (rs : List MemoryReservation) : Result Unit := do
  let domains ← rs.foldlM p.reservationStep []
  refuseIf (!domains.contains "host" || (p.executionMode == "cpu" && domains.length != 1) ||
      (p.executionMode == "cuda" &&
        (domains.length != 2 || p.minimumAcceleratorMemoryBytes == 0)))
    "model profile memory domains mismatch execution mode"

instance noPanic_reservationStep (p : ModelProfile) (seen : List String) (r : MemoryReservation) :
    NoPanic (p.reservationStep seen r) := by
  unfold reservationStep
  infer_instance

instance noPanic_reservationsStep (p : ModelProfile) (rs : List MemoryReservation) :
    NoPanic (p.reservationsStep rs) := by
  unfold reservationsStep
  infer_instance

/-- `ModelProfile::validate`. -/
def validate (p : ModelProfile) : Result Unit := do
  modelAscii 256 p.profileId
  modelHash p.modelPackManifestSha256
  modelHash p.runtimeTupleSha256
  [p.parameterTotal, p.parameterActiveMin, p.parameterActiveMax, p.contextTokens, p.installBytes,
    p.storagePeakBytes, p.minimumHostRamBytes].forM modelPositive
  refuseIf (p.profileId == "manual-only" || p.kind != "model" || p.remoteFallback ||
      p.parameterActiveMin > p.parameterActiveMax || p.parameterActiveMax > p.parameterTotal ||
      p.storagePeakBytes < p.installBytes ||
      p.minimumAcceleratorMemoryBytes.toNat > safeInteger ||
      !(p.executionMode == "cpu" || p.executionMode == "cuda"))
    "invalid model profile parameter/storage/mode/fallback policy"
  [p.loadReservations, p.serveReservations].forM p.reservationsStep
  refuseIf (p.executionMode == "cpu" && p.minimumAcceleratorMemoryBytes != 0)
    "CPU profile cannot require accelerator memory"
  refuseIf (!(p.availability == "available" || p.availability == "unavailable") ||
      !(p.verificationState == "verified" || p.verificationState == "unverified") ||
      !(p.developmentState == "untested" || p.developmentState == "development-tested") ||
      !(p.certificationState == "not-certified" || p.certificationState == "execution-certified" ||
        p.certificationState == "interactive-certified") ||
      (p.certificationState != "not-certified" && (p.verificationState != "verified" ||
        p.developmentState != "development-tested")))
    "model profile claims an invalid lifecycle state"

instance noPanic_validate (p : ModelProfile) : NoPanic p.validate := by
  unfold validate
  infer_instance

end ModelProfile

namespace ModelCatalog

def toJson (c : ModelCatalog) : Value :=
  .object [("catalog_id", .string c.catalogId),
    ("profiles", .array (c.profiles.map SelectableProfile.toJson)),
    ("schema_version", .number c.schemaVersion)]

/-- One profile; the accumulator is the last identifier and the number of manual profiles. -/
def profileStep (acc : Option String × Nat) (p : SelectableProfile) :
    Result (Option String × Nat) := do
  refuseIf (acc.1.any fun id => p.id ≤ id) "model catalog profiles must have unique canonical IDs"
  match p with
  | .manual m => do
    refuseIf (m.kind != "manual-only" || m.profileId != "manual-only" || m.remoteFallback)
      "invalid explicit manual-only model profile"
    pure (some p.id, acc.2 + 1)
  | .model m => do
    m.validate
    pure (some p.id, acc.2)

instance noPanic_profileStep (acc : Option String × Nat) (p : SelectableProfile) :
    NoPanic (profileStep acc p) := by
  unfold profileStep
  cases p with
  | manual m | model m => infer_instance

/-- `ModelCatalog::validate`. -/
def validate (c : ModelCatalog) : Result Unit := do
  modelAscii 256 c.catalogId
  refuseIf (c.schemaVersion != 1 || c.profiles.isEmpty || c.profiles.length > 256)
    "invalid frozen model profile catalog bounds/schema"
  let acc ← c.profiles.foldlM profileStep (none, 0)
  refuseIf (acc.2 != 1) "model catalog requires exactly one manual-only profile"

instance noPanic_validate (c : ModelCatalog) : NoPanic c.validate := by
  unfold validate
  infer_instance

end ModelCatalog

/-! ## The approval quorum -/

structure ReleaseRequest where
  artifactType : String
  catalogId : String
  catalogSequence : UInt64
  catalogSha256 : String
  environment : String
  notAfter : String
  notBefore : String
  policyVersion : String
  purpose : String
  releaseId : String
  schemaVersion : Nat
  signatureAlgorithm : String
  signerKeyId : String
  signingActivity : String
  signingAssignmentId : String
  signingAssignmentReceiptSha256 : String
  signingPrincipalId : String
deriving DecidableEq, Repr

structure Approval where
  activity : String
  approvedAt : String
  approvalDecisionReceiptSha256 : String
  assignmentId : String
  assignmentReceiptSha256 : String
  catalogSha256 : String
  decision : String
  principalId : String
  releaseRequestSha256 : String
  releaseId : String
deriving DecidableEq, Repr

/-- `model_trust::Statement`. -/
structure ModelStatement where
  approvalSetSha256 : String
  artifactType : String
  catalogId : String
  catalogSequence : UInt64
  catalogSha256 : String
  environment : String
  notAfter : String
  notBefore : String
  policyVersion : String
  purpose : String
  releaseId : String
  releaseRequestSha256 : String
  schemaVersion : Nat
  signatureAlgorithm : String
  signedAt : String
  signerKeyId : String
  signingActivity : String
  signingAssignmentId : String
  signingAssignmentReceiptSha256 : String
  signingPrincipalId : String
deriving DecidableEq, Repr

structure Envelope where
  approvals : List Approval
  schemaVersion : Nat
  signature : String
  signatureEncoding : String
  statement : ModelStatement
deriving DecidableEq, Repr

/-- `model_trust::signing_activity`. -/
def signingActivity (env : String) : Result String := do
  modelEnvironment env
  pure (if env == "production" then "model-catalog.sign.production" else "model-catalog.sign.lab")

/-- `model_trust::purpose`. -/
def signingPurpose (env : String) : Result String := do
  modelEnvironment env
  pure (if env == "production" then "model-profile-catalog-production"
    else "model-profile-catalog-lab")

/-- `model_trust::approval_activities`. -/
def approvalActivities (env : String) : Result (List String) := do
  modelEnvironment env
  pure (if env == "production" then ["model-catalog.approve.license",
      "model-catalog.approve.release", "model-catalog.approve.security"]
    else ["model-catalog.approve.lab-release"])

instance noPanic_signingActivity (env : String) : NoPanic (signingActivity env) := by
  unfold signingActivity
  infer_instance

instance noPanic_signingPurpose (env : String) : NoPanic (signingPurpose env) := by
  unfold signingPurpose
  infer_instance

instance noPanic_approvalActivities (env : String) : NoPanic (approvalActivities env) := by
  unfold approvalActivities
  infer_instance

namespace ReleaseRequest

def toJson (r : ReleaseRequest) : Value :=
  .object [("artifact_type", .string r.artifactType), ("catalog_id", .string r.catalogId),
    ("catalog_sequence", .number r.catalogSequence.toNat),
    ("catalog_sha256", .string r.catalogSha256), ("environment", .string r.environment),
    ("not_after", .string r.notAfter), ("not_before", .string r.notBefore),
    ("policy_version", .string r.policyVersion), ("purpose", .string r.purpose),
    ("release_id", .string r.releaseId), ("schema_version", .number r.schemaVersion),
    ("signature_algorithm", .string r.signatureAlgorithm),
    ("signer_key_id", .string r.signerKeyId), ("signing_activity", .string r.signingActivity),
    ("signing_assignment_id", .string r.signingAssignmentId),
    ("signing_assignment_receipt_sha256", .string r.signingAssignmentReceiptSha256),
    ("signing_principal_id", .string r.signingPrincipalId)]

/-- `ReleaseRequest::validate`. -/
def validate (r : ReleaseRequest) : Result Unit := do
  let message := "invalid model release-request schema/purpose/activity"
  refuseIf (r.artifactType != "model-profile-catalog-release-request" || r.schemaVersion != 1 ||
    r.signatureAlgorithm != "Ed25519") message
  let purpose ← signingPurpose r.environment
  refuseIf (r.purpose != purpose) message
  let activity ← Governance.signingActivity r.environment
  refuseIf (r.signingActivity != activity) message
  modelPositive r.catalogSequence
  modelHash r.catalogSha256
  modelHash r.signingAssignmentReceiptSha256
  [r.catalogId, r.policyVersion, r.releaseId, r.signerKeyId, r.signingAssignmentId,
    r.signingPrincipalId].forM (modelAscii 256)
  let _ ← dates r.notBefore r.notAfter
  pure ()

instance noPanic_validate (r : ReleaseRequest) : NoPanic r.validate := by
  unfold validate
  infer_instance

/-- `ReleaseRequest::digest`. -/
def digest (sha256 : Bytes → Vector UInt8 32) (r : ReleaseRequest) : Result String := do
  r.validate
  modelDigest sha256 r.toJson

instance noPanic_digest (sha256 : Bytes → Vector UInt8 32) (r : ReleaseRequest) :
    NoPanic (r.digest sha256) := by
  unfold digest
  infer_instance

end ReleaseRequest

namespace Approval

def toJson (a : Approval) : Value :=
  .object [("activity", .string a.activity), ("approved_at", .string a.approvedAt),
    ("approval_decision_receipt_sha256", .string a.approvalDecisionReceiptSha256),
    ("assignment_id", .string a.assignmentId),
    ("assignment_receipt_sha256", .string a.assignmentReceiptSha256),
    ("catalog_sha256", .string a.catalogSha256), ("decision", .string a.decision),
    ("principal_id", .string a.principalId),
    ("release_request_sha256", .string a.releaseRequestSha256),
    ("release_id", .string a.releaseId)]

/-- `Approval::validate`. -/
def validate (a : Approval) : Result Unit := do
  [a.activity, a.principalId, a.assignmentId, a.releaseId].forM (modelAscii 256)
  [a.assignmentReceiptSha256, a.approvalDecisionReceiptSha256, a.releaseRequestSha256,
    a.catalogSha256].forM modelHash
  let _ ← timestamp a.approvedAt
  refuseIf (a.decision != "approved")
    "model catalog approval must be an explicit approved decision"

instance noPanic_validate (a : Approval) : NoPanic a.validate := by
  unfold validate
  infer_instance

/-- `Approval::check_request`. -/
def checkRequest (sha256 : Bytes → Vector UInt8 32) (a : Approval) (request : ReleaseRequest) :
    Result Unit := do
  let message := "model approval does not bind the exact request or independent activity/principal"
  a.validate
  request.validate
  let activities ← approvalActivities request.environment
  refuseIf (!activities.contains a.activity || a.releaseId != request.releaseId ||
    a.catalogSha256 != request.catalogSha256) message
  let digest ← request.digest sha256
  refuseIf (a.releaseRequestSha256 != digest || a.principalId == request.signingPrincipalId) message

instance noPanic_checkRequest (sha256 : Bytes → Vector UInt8 32) (a : Approval)
    (request : ReleaseRequest) : NoPanic (a.checkRequest sha256 request) := by
  unfold checkRequest
  infer_instance

end Approval

namespace ModelStatement

def toJson (s : ModelStatement) : Value :=
  .object [("approval_set_sha256", .string s.approvalSetSha256),
    ("artifact_type", .string s.artifactType), ("catalog_id", .string s.catalogId),
    ("catalog_sequence", .number s.catalogSequence.toNat),
    ("catalog_sha256", .string s.catalogSha256), ("environment", .string s.environment),
    ("not_after", .string s.notAfter), ("not_before", .string s.notBefore),
    ("policy_version", .string s.policyVersion), ("purpose", .string s.purpose),
    ("release_id", .string s.releaseId),
    ("release_request_sha256", .string s.releaseRequestSha256),
    ("schema_version", .number s.schemaVersion),
    ("signature_algorithm", .string s.signatureAlgorithm), ("signed_at", .string s.signedAt),
    ("signer_key_id", .string s.signerKeyId), ("signing_activity", .string s.signingActivity),
    ("signing_assignment_id", .string s.signingAssignmentId),
    ("signing_assignment_receipt_sha256", .string s.signingAssignmentReceiptSha256),
    ("signing_principal_id", .string s.signingPrincipalId)]

/-- `Statement::request`. -/
def request (s : ModelStatement) : ReleaseRequest where
  artifactType := "model-profile-catalog-release-request"
  catalogId := s.catalogId
  catalogSequence := s.catalogSequence
  catalogSha256 := s.catalogSha256
  environment := s.environment
  notAfter := s.notAfter
  notBefore := s.notBefore
  policyVersion := s.policyVersion
  purpose := s.purpose
  releaseId := s.releaseId
  schemaVersion := s.schemaVersion
  signatureAlgorithm := s.signatureAlgorithm
  signerKeyId := s.signerKeyId
  signingActivity := s.signingActivity
  signingAssignmentId := s.signingAssignmentId
  signingAssignmentReceiptSha256 := s.signingAssignmentReceiptSha256
  signingPrincipalId := s.signingPrincipalId

/-- `Statement::validate`. -/
def validate (sha256 : Bytes → Vector UInt8 32) (s : ModelStatement) : Result Unit := do
  let message := "model statement signing time or exact request mismatch"
  refuseIf (s.artifactType != "model-profile-catalog") "unknown signed model catalog statement"
  s.request.validate
  modelHash s.approvalSetSha256
  modelHash s.releaseRequestSha256
  let validity ← dates s.notBefore s.notAfter
  let signed ← timestamp s.signedAt
  refuseIf (signed < validity.1 || signed ≥ validity.2) message
  let digest ← s.request.digest sha256
  refuseIf (s.releaseRequestSha256 != digest) message

instance noPanic_validate (sha256 : Bytes → Vector UInt8 32) (s : ModelStatement) :
    NoPanic (s.validate sha256) := by
  unfold validate
  infer_instance

/-- `Statement::digest`. -/
def digest (sha256 : Bytes → Vector UInt8 32) (s : ModelStatement) : Result String := do
  s.validate sha256
  modelDigest sha256 s.toJson

instance noPanic_digest (sha256 : Bytes → Vector UInt8 32) (s : ModelStatement) :
    NoPanic (s.digest sha256) := by
  unfold digest
  infer_instance

end ModelStatement

namespace Envelope

def toJson (e : Envelope) : Value :=
  .object [("approvals", .array (e.approvals.map Approval.toJson)),
    ("schema_version", .number e.schemaVersion), ("signature", .string e.signature),
    ("signature_encoding", .string e.signatureEncoding), ("statement", e.statement.toJson)]

/-- `previous >= order` on the pairs `(activity, principal_id)`. -/
def notAfter (order previous : Approval) : Bool :=
  order.activity < previous.activity ||
    (order.activity == previous.activity && order.principalId ≤ previous.principalId)

/-- One approval of the quorum; the accumulator is the approvals before it. -/
def approvalStep (sha256 : Bytes → Vector UInt8 32) (e : Envelope) (seen : List Approval)
    (a : Approval) : Result (List Approval) := do
  let message :=
    "model approval quorum is duplicate, unordered, non-independent or after signing"
  a.checkRequest sha256 e.statement.request
  refuseIf (seen.any (fun b => b.principalId == a.principalId) ||
    seen.any (fun b => b.activity == a.activity) || seen.getLast?.any (notAfter a)) message
  let approved ← timestamp a.approvedAt
  let signed ← timestamp e.statement.signedAt
  refuseIf (approved > signed) message
  pure (seen ++ [a])

instance noPanic_approvalStep (sha256 : Bytes → Vector UInt8 32) (e : Envelope)
    (seen : List Approval) (a : Approval) : NoPanic (e.approvalStep sha256 seen a) := by
  unfold approvalStep
  infer_instance

/-- The canonical approval set the statement binds. -/
def approvalSet (approvals : List Approval) : Value :=
  .object [("approvals", .array (approvals.map Approval.toJson)), ("schema_version", .number 1)]

/-- `Envelope::validate`. Two activity sets are equal when each contains the other. -/
def validate (sha256 : Bytes → Vector UInt8 32) (e : Envelope) : Result Unit := do
  e.statement.validate sha256
  let _ ← decode64 64 e.signature
  refuseIf (e.schemaVersion != 1 || e.signatureEncoding != "base64" || e.approvals.isEmpty)
    "invalid model catalog signature envelope"
  let seen ← e.approvals.foldlM (e.approvalStep sha256) []
  let activities := seen.map (·.activity)
  let expected ← approvalActivities e.statement.environment
  refuseIf (!(activities.all expected.contains && expected.all activities.contains))
    "model approval quorum does not match environment"
  let digest ← modelDigest sha256 (approvalSet e.approvals)
  refuseIf (digest != e.statement.approvalSetSha256)
    "model statement does not bind exact canonical approval set"

instance noPanic_validate (sha256 : Bytes → Vector UInt8 32) (e : Envelope) :
    NoPanic (e.validate sha256) := by
  unfold validate
  infer_instance

end Envelope

/-! ## Admission -/

/-- What the model code takes from outside the repository: also `serde_json::from_slice` for its
two signed documents. -/
structure ModelFormats extends Formats where
  parseCatalog : Bytes → Except String ModelCatalog
  parseEnvelope : Bytes → Except String Envelope

/-- `ModelCatalog::parse`. -/
def ModelCatalog.parse (f : ModelFormats) (text : String) : Result ModelCatalog := do
  let value ← parseCanonical f.parseCatalog ModelCatalog.toJson (4 * 1024 * 1024)
    text.toUTF8.data.toList
  value.validate
  pure value

/-- `Envelope::parse`. -/
def Envelope.parse (f : ModelFormats) (text : String) : Result Envelope := do
  let value ← parseCanonical f.parseEnvelope Envelope.toJson (1024 * 1024)
    text.toUTF8.data.toList
  value.validate f.sha256
  pure value

instance ModelCatalog.noPanic_parse (f : ModelFormats) (text : String) :
    NoPanic (ModelCatalog.parse f text) := by
  unfold ModelCatalog.parse
  infer_instance

instance Envelope.noPanic_parse (f : ModelFormats) (text : String) :
    NoPanic (Envelope.parse f text) := by
  unfold Envelope.parse
  infer_instance

/-- `model_trust::Admission`. -/
structure ModelAdmission where
  catalogJson : String
  envelopeJson : String
  trustSha256 : String
deriving DecidableEq, Repr

/-- `Admission::validate`. -/
def ModelAdmission.validate (f : ModelFormats) (a : ModelAdmission) : Result Unit := do
  let message := "model catalog does not bind exact signed identity/bytes"
  modelHash a.trustSha256
  let catalog ← ModelCatalog.parse f a.catalogJson
  let envelope ← Envelope.parse f a.envelopeJson
  refuseIf (catalog.catalogId != envelope.statement.catalogId) message
  let digest ← modelDigest f.sha256 catalog.toJson
  refuseIf (digest != envelope.statement.catalogSha256) message

instance ModelAdmission.noPanic_validate (f : ModelFormats) (a : ModelAdmission) :
    NoPanic (a.validate f) := by
  unfold ModelAdmission.validate
  infer_instance

/-- `model_trust::State`. -/
structure ModelState where
  trust : ModelTrust
  floor : UInt64
  current : Option ModelAdmission
deriving DecidableEq, Repr

namespace ModelState

/-- A key of the anchored bundle in the next one: retained, with the same material and purposes,
its revocation neither removed nor postponed. -/
def rotateKey (next : ModelTrust) (prior : TrustKey) : Result Unit := do
  let key ← okOr (next.bundle.keys.find? fun k => k.keyId == prior.keyId)
    "model trust rotation drops historical key identity/revocation tombstone"
  refuseIf (key.publicKey != prior.publicKey || key.environment != prior.environment ||
      key.role != prior.role || key.purposes != prior.purposes)
    "model trust rotation reuses historical key identity for another material/purpose"
  match prior.revokedAt with
  | none => pure ()
  | some revoked => do
    let priorTime ← timestamp revoked
    let nextTime ← match key.revokedAt with
      | none => refuse "model key revocation cannot be removed"
      | some v => timestamp v
    refuseIf (nextTime > priorTime) "model key revocation is irreversible and cannot be postponed"

instance noPanic_rotateKey (next : ModelTrust) (prior : TrustKey) :
    NoPanic (rotateKey next prior) := by
  refine noPanic_bind inferInstance fun key _ => noPanic_bind inferInstance fun _ _ => ?_
  cases prior.revokedAt with
  | none => exact noPanic_pure _
  | some revoked =>
    refine noPanic_bind inferInstance fun priorTime _ => ?_
    cases key.revokedAt with
    | none => exact noPanic_bind (noPanic_refuse _) fun _ _ => noPanic_refuseIf _ _
    | some v => exact noPanic_bind (noPanic_timestamp v) fun _ _ => noPanic_refuseIf _ _

/-- The continuity of a publication with the anchored state, if there is one. -/
def rotation (sha256 : Bytes → Vector UInt8 32) (previous : Option ModelState)
    (next : ModelTrust) : Result Unit :=
  match previous with
  | none => .ok ()
  | some old => do
    let message := "model trust environment/predecessor mismatch"
    refuseIf (old.trust.bundle.environment != next.bundle.environment) message
    let digest ← old.trust.digest sha256
    refuseIf (next.bundle.previousBundleSha256 != some digest) message
    old.trust.bundle.keys.forM (rotateKey next)

instance noPanic_rotation (sha256 : Bytes → Vector UInt8 32) (previous : Option ModelState)
    (next : ModelTrust) : NoPanic (rotation sha256 previous next) := by
  unfold rotation
  split
  · infer_instance
  · infer_instance

/-- The state a publication leaves. -/
def withTrust (previous : Option ModelState) (next : ModelTrust) : ModelState :=
  match previous with
  | none => { trust := next, floor := 0, current := none }
  | some old => { old with trust := next }

/-- `model_trust::publish` (`model_trust.rs:2284-2358`). -/
def publish (f : ModelFormats) (expected : UInt64) (bundle : ModelTrust) :
    Mut (Option ModelState) Unit := do
  bundle.validate
  let current ← get
  let sequence := (current.map fun s => s.trust.bundle.bundleSequence).getD 0
  if sequence == expected && sequence == bundle.bundle.bundleSequence then
    refuseIf (!current.any fun s => s.trust == bundle)
      "model trust digest forks an anchored sequence"
  else do
    let message := "model trust compare-and-swap sequence mismatch"
    refuseIf (sequence != expected) message
    let next ← okOr (u64Add expected 1) "model trust sequence overflow"
    refuseIf (bundle.bundle.bundleSequence != next) message
    rotation f.sha256 current bundle
    set (some (withTrust current bundle))

/-- `model_trust::admit` (`model_trust.rs:2359-2388`). -/
def admitCatalog (f : ModelFormats) (expected : UInt64) (admission : ModelAdmission) :
    Mut (Option ModelState) Unit := do
  let message := "model catalog trust/environment/CAS floor mismatch"
  admission.validate f
  let s ← okOr (← get) "model trust must be committed before catalog admission"
  let envelope ← Envelope.parse f admission.envelopeJson
  let sequence := envelope.statement.catalogSequence
  refuseIf (expected != s.floor) message
  let digest ← s.trust.digest f.sha256
  refuseIf (admission.trustSha256 != digest ||
    envelope.statement.environment != s.trust.bundle.environment || sequence < s.floor ||
    (s.floor == 0 && sequence != 1)) message
  refuseIf (sequence == s.floor &&
      s.current.all fun old => old.catalogJson != admission.catalogJson)
    "model catalog digest forks an anchored sequence"
  set (some { s with floor := sequence, current := some admission })

theorem safe_publish (f : ModelFormats) (expected : UInt64) (bundle : ModelTrust)
    (s : Option ModelState) : Mut.Safe (publish f expected bundle) s fun _ s' =>
      s' = s ∨ s' = some (withTrust s bundle) := by
  unfold publish
  refine Mut.safe_bind_lift fun _ _ => Mut.safe_bind_get ?_
  dsimp only
  split
  · exact Mut.safe_lift fun _ _ => Or.inl rfl
  · exact Mut.safe_bind_lift fun _ _ => Mut.safe_bind_lift fun _ _ => Mut.safe_bind_lift fun _ _ =>
      Mut.safe_bind_lift fun _ _ => Mut.safe_set (Or.inr rfl)

theorem safe_admitCatalog (f : ModelFormats) (expected : UInt64) (a : ModelAdmission)
    (s : Option ModelState) : Mut.Safe (admitCatalog f expected a) s fun _ s' =>
      ∃ old floor, s = some old ∧ s' = some { old with floor, current := some a } := by
  unfold admitCatalog
  exact Mut.safe_bind_lift fun _ _ => Mut.safe_bind_get (Mut.safe_bind_lift fun old hold =>
    Mut.safe_bind_lift fun _ _ => Mut.safe_bind_lift fun _ _ => Mut.safe_bind_lift fun _ _ =>
    Mut.safe_bind_lift fun _ _ => Mut.safe_bind_lift fun _ _ =>
    Mut.safe_set ⟨old, _, okOr_eq_ok.mp hold, rfl⟩)

end ModelState

end LumaOS.Governance
