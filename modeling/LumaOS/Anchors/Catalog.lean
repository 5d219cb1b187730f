import LumaOS.Anchors.TrustBundle

/-!
# Anchored catalogs

`prepare_catalog_admission`, `commit_catalog_admission` and `AnchoredCatalogAdmission.ensure_current`
(`catalog_admission.py`) with `verify_signed_catalog` (`model_catalog_signing.py`), cut at their
reads and swaps of the anchor. Every signature check asks first whether the trust bundle is current,
which reads the anchor too.

Parsers and digests are parameters (`CatalogLibrary`). What a verification meets outside, the clock,
the providers and the pack verifications, is a `CatalogEnv`, another one for each verification.
-/

namespace LumaOS.Anchors

open LumaOS.Base LumaOS.Text

structure ModelProfileCatalog where
  catalogId : String
  digest : String
deriving DecidableEq

structure CatalogSignatureStatement where
  environment : String
  releaseId : String
  catalogId : String
  catalogSha256 : String
  catalogSequence : Nat
  policyVersion : String
  approvalSetSha256 : String
  signerKeyId : String
  signedAt : Nat
  notBefore : Nat
  notAfter : Nat
  digest : String
deriving DecidableEq

structure CatalogSignatureEnvelope where
  statement : CatalogSignatureStatement
  signature : Bytes
  approvedAt : List Nat

structure CatalogVerificationReceipt where
  environment : String
  releaseId : String
  catalogId : String
  catalogSha256 : String
  catalogSequence : Nat
  statementSha256 : String
  signatureSha256 : String
  approvalSetSha256 : String
  signerKeyId : String
  policyVersion : String
  verifiedAt : Nat
deriving DecidableEq

structure VerifiedModelCatalog where
  catalog : ModelProfileCatalog
  statement : CatalogSignatureStatement
  receipt : CatalogVerificationReceipt

/-- `_CatalogVerificationContext` without what lies outside. -/
structure CatalogContext where
  rawCatalog : Bytes
  rawEnvelope : Bytes
  acceptedPolicyVersions : List String

/-- What one verification meets: the time, whether the signature provider is the one bound to the
trust bundle, what the three checks of the trust bundle meet, whether the approvals and the signer
are authorized, the answer of a purpose-bound key at a time, and the pack verifications. -/
structure CatalogEnv where
  clock : Except Failure Nat
  cryptoBound : Bool
  trust : Fin 3 → TrustEnv
  authorized : CatalogSignatureEnvelope → Nat → Bool
  keyAccepts : CatalogSignatureStatement → Bytes → Nat → Bool
  profiles : ModelProfileCatalog → Except Failure Unit

/-- The fields that `plan_sha256` binds. -/
structure PlanFields where
  environment : String
  releaseId : String
  catalogId : String
  catalogSequence : Nat
  catalogPolicyVersion : String
  anchorNamespace : String
  expectedCheckpoint : Option DigestCheckpoint
  replacementCheckpoint : DigestCheckpoint
  catalogSha256 : String
  envelopeSha256 : String
  trustBundleSha256 : String
  verificationReceiptSha256 : String

structure CatalogAdmissionPlan extends PlanFields where
  planSha256 : String
  candidate : VerifiedModelCatalog
  trustBundle : AnchoredTrustBundle
  context : CatalogContext

/-- The parsers and the digests. -/
structure CatalogLibrary where
  parseBundle : Bytes → Except Failure SignedTrustBundle
  parseCatalog : Bytes → Except Failure ModelProfileCatalog
  parseEnvelope : Bytes → Except Failure CatalogSignatureEnvelope
  sha256 : Bytes → String
  receiptDigest : CatalogVerificationReceipt → String
  planDigest : PlanFields → String

structure AnchoredCatalogAdmission where
  plan : CatalogAdmissionPlan
  anchorCheckpoint : DigestCheckpoint

/-- `CATALOG_ANCHOR_NAMESPACES.get`. -/
def catalogNamespace : String → Option String
  | "lab" => some "luma-os/model-profile-catalog/lab/v1"
  | "production" => some "luma-os/model-profile-catalog/production/v1"
  | _ => none

/-- `_read_checkpoint` of `catalog_admission.py`. -/
def readCatalogCheckpoint (nameSpace : String) : Call (Option DigestCheckpoint) := do
  let checkpoint ← (read nameSpace).tryCatch fun _ =>
    Prog.raise (.catalogDenied "the trusted catalog rollback checkpoint could not be read")
  Prog.lift (raiseIf (checkpoint.any fun c => c.nameSpace != nameSpace)
    (Failure.catalogDenied "the trusted catalog rollback checkpoint uses the wrong namespace"))
  pure checkpoint

section Verify

variable (lib : CatalogLibrary)

/-- `_AnchoredPurposeBoundEd25519Verifier.verify_at`. -/
def verifyAt (trustBundle : AnchoredTrustBundle) (env : TrustEnv) (accepts : Bool) : Call Bool :=
  Prog.tryCatch
    (do
      trustBundle.ensureCurrent lib.parseBundle env
      pure accepts)
    fun
      | .signingTrust _ => pure false
      | .trustDenied _ => pure false
      | e => Prog.raise e

/-- The checks of `verify_signed_catalog` before the signature. -/
def CatalogSignatureEnvelope.admissible (envelope : CatalogSignatureEnvelope)
    (catalog : ModelProfileCatalog) (catalogSha256 expectedEnvironment expectedReleaseId : String)
    (checkpoint : Option DigestCheckpoint) (observedAt : Nat) (authorized : Bool) :
    Except Failure Unit := do
  let statement := envelope.statement
  raiseIf (statement.environment != expectedEnvironment)
    (Failure.catalogDenied "catalog environment does not match policy")
  raiseIf (statement.releaseId != expectedReleaseId)
    (Failure.catalogDenied "catalog release does not match the requested release")
  raiseIf (statement.catalogId != catalog.catalogId || statement.catalogSha256 != catalogSha256)
    (Failure.catalogDenied "catalog identity or digest does not match the statement")
  raiseIf (checkpoint.any fun c => statement.catalogSequence < c.sequence)
    (Failure.catalogDenied "catalog sequence is below the trusted rollback floor")
  raiseIf (checkpoint.any fun c =>
      statement.catalogSequence == c.sequence && c.artifactSha256 != catalogSha256)
    (Failure.catalogDenied "catalog digest conflicts with the trusted sequence checkpoint")
  raiseIf (!(statement.notBefore ≤ observedAt && observedAt < statement.notAfter))
    (Failure.catalogDenied "catalog signature statement is not currently valid")
  raiseIf (statement.signedAt > observedAt)
    (Failure.catalogDenied "catalog signing time is in the future")
  raiseIf (envelope.approvedAt.any fun approved => approved > observedAt)
    (Failure.catalogDenied "a catalog approval time is in the future")
  raiseIf (!authorized)
    (Failure.catalogDenied "the exact catalog approval and signing batch is not authorized")

def CatalogSignatureEnvelope.receipt (envelope : CatalogSignatureEnvelope) (catalogSha256 : String)
    (observedAt : Nat) : CatalogVerificationReceipt where
  environment := envelope.statement.environment
  releaseId := envelope.statement.releaseId
  catalogId := envelope.statement.catalogId
  catalogSha256 := catalogSha256
  catalogSequence := envelope.statement.catalogSequence
  statementSha256 := envelope.statement.digest
  signatureSha256 := lib.sha256 envelope.signature
  approvalSetSha256 := envelope.statement.approvalSetSha256
  signerKeyId := envelope.statement.signerKeyId
  policyVersion := envelope.statement.policyVersion
  verifiedAt := observedAt

/-- `verify_signed_catalog` (`model_catalog_signing.py:912-1052`). -/
def verifySignedCatalog (context : CatalogContext) (trustBundle : AnchoredTrustBundle)
    (expectedEnvironment expectedReleaseId : String) (checkpoint : Option DigestCheckpoint)
    (observedAt : Nat) (env : CatalogEnv) : Call VerifiedModelCatalog := do
  let catalog ← Prog.lift (lib.parseCatalog context.rawCatalog)
  let envelope ← Prog.lift (lib.parseEnvelope context.rawEnvelope)
  let statement := envelope.statement
  let catalogSha256 := lib.sha256 context.rawCatalog
  Prog.lift (envelope.admissible catalog catalogSha256 expectedEnvironment expectedReleaseId
    checkpoint observedAt (env.authorized envelope observedAt))
  let signed ← verifyAt lib trustBundle (env.trust 1)
    (env.keyAccepts statement envelope.signature statement.signedAt)
  Prog.lift (raiseIf (!signed) (Failure.catalogDenied "catalog signature is not trusted"))
  let current ← verifyAt lib trustBundle (env.trust 2)
    (env.keyAccepts statement envelope.signature observedAt)
  Prog.lift (raiseIf (!current) (Failure.catalogDenied "catalog signature is not trusted"))
  Prog.lift (env.profiles catalog)
  pure ⟨catalog, statement, envelope.receipt lib catalogSha256 observedAt⟩

/-- `_verify_with_current_policy`. -/
def verifyWithCurrentPolicy (context : CatalogContext) (trustBundle : AnchoredTrustBundle)
    (expectedEnvironment expectedReleaseId : String) (checkpoint : Option DigestCheckpoint)
    (env : CatalogEnv) : Call VerifiedModelCatalog := do
  let observedAt ← Prog.lift env.clock
  Prog.lift (raiseIf (!env.cryptoBound) (Failure.signingTrust
    "public Ed25519 verifier differs from the provider bound at trust admission"))
  trustBundle.ensureCurrent lib.parseBundle (env.trust 0)
  let verified ← verifySignedCatalog lib context trustBundle expectedEnvironment expectedReleaseId
    checkpoint observedAt env
  Prog.lift (raiseIf (!context.acceptedPolicyVersions.contains verified.receipt.policyVersion)
    (Failure.catalogDenied "catalog policy version is not accepted for this admission"))
  pure verified

/-- `_same_verified_artifact`. -/
def sameVerifiedArtifact (first second : VerifiedModelCatalog) : Bool :=
  first.catalog == second.catalog && first.statement == second.statement &&
    { first.receipt with verifiedAt := 0 } == { second.receipt with verifiedAt := 0 }

/-! ## Admission -/

/-- The arguments of `prepare_catalog_admission`. -/
structure CatalogRequest where
  rawCatalog : Bytes
  rawEnvelope : Bytes
  expectedEnvironment : String
  expectedReleaseId : String
  acceptedCatalogPolicyVersions : List String
  trustBundle : AnchoredTrustBundle

/-- The checks of `prepare_catalog_admission` before it reads; the namespace it works in. -/
def CatalogRequest.check (request : CatalogRequest) : Except Failure String := do
  let nameSpace ← (match catalogNamespace request.expectedEnvironment with
    | some nameSpace => .ok nameSpace
    | none => .error (.catalogInvalid "expected_environment must be exactly lab or production") :
      Except Failure String)
  raiseIf (request.rawCatalog.isEmpty || request.rawCatalog.length > 4 * 1024 * 1024)
    (Failure.catalogInvalid "catalog bytes exceed the bounded input contract")
  raiseIf (request.rawEnvelope.isEmpty || request.rawEnvelope.length > 1024 * 1024)
    (Failure.catalogInvalid "envelope bytes exceed the bounded input contract")
  raiseIf request.acceptedCatalogPolicyVersions.isEmpty
    (Failure.catalogInvalid "accepted_catalog_policy_versions must not be empty")
  raiseIf (!request.acceptedCatalogPolicyVersions.all isIdentifier)
    (Failure.catalogInvalid
      "catalog policy versions must be non-empty printable ASCII identifiers")
  raiseIf (request.expectedEnvironment == "production" &&
      request.trustBundle.bundle.environment != "production")
    (Failure.catalogDenied "lab trust cannot admit a production catalog")
  raiseIf (request.trustBundle.bundle.environment != request.expectedEnvironment)
    (Failure.catalogDenied "trust-bundle environment does not match the catalog environment")
  pure nameSpace

/-- The checkpoint of a verified catalog. -/
def CatalogVerificationReceipt.replacement (receipt : CatalogVerificationReceipt)
    (nameSpace : String) : Option DigestCheckpoint → Except Failure DigestCheckpoint
  | none => do
    raiseIf (receipt.catalogSequence != 1)
      (Failure.catalogDenied "a new catalog anchor namespace must begin at sequence one")
    DigestCheckpoint.make nameSpace 1 receipt.catalogSequence receipt.catalogSha256
  | some checkpoint =>
    if receipt.catalogSequence == checkpoint.sequence then .ok checkpoint
    else
      DigestCheckpoint.make nameSpace (checkpoint.generation + 1) receipt.catalogSequence
        receipt.catalogSha256

def CatalogRequest.context (request : CatalogRequest) : CatalogContext where
  rawCatalog := request.rawCatalog
  rawEnvelope := request.rawEnvelope
  acceptedPolicyVersions := request.acceptedCatalogPolicyVersions

def CatalogRequest.fields (request : CatalogRequest) (nameSpace : String)
    (checkpoint : Option DigestCheckpoint) (replacement : DigestCheckpoint)
    (receipt : CatalogVerificationReceipt) : PlanFields where
  environment := receipt.environment
  releaseId := receipt.releaseId
  catalogId := receipt.catalogId
  catalogSequence := receipt.catalogSequence
  catalogPolicyVersion := receipt.policyVersion
  anchorNamespace := nameSpace
  expectedCheckpoint := checkpoint
  replacementCheckpoint := replacement
  catalogSha256 := receipt.catalogSha256
  envelopeSha256 := lib.sha256 request.rawEnvelope
  trustBundleSha256 := request.trustBundle.bundle.digest
  verificationReceiptSha256 := lib.receiptDigest receipt

/-- `prepare_catalog_admission` (`catalog_admission.py:430-551`). -/
def CatalogRequest.prepare (request : CatalogRequest) (env : CatalogEnv) :
    Call CatalogAdmissionPlan := do
  let nameSpace ← Prog.lift request.check
  let checkpoint ← readCatalogCheckpoint nameSpace
  let verified ← verifyWithCurrentPolicy lib request.context request.trustBundle
    request.expectedEnvironment request.expectedReleaseId checkpoint env
  let replacement ← Prog.lift (verified.receipt.replacement nameSpace checkpoint)
  let fields := request.fields lib nameSpace checkpoint replacement verified.receipt
  pure ⟨fields, lib.planDigest fields, verified, request.trustBundle, request.context⟩

/-- `_validate_plan` (`catalog_admission.py:554-625`). -/
def CatalogAdmissionPlan.validate (plan : CatalogAdmissionPlan) : Except Failure Unit := do
  raiseIf (catalogNamespace plan.environment != some plan.anchorNamespace)
    (Failure.catalogInvalid "admission plan uses an untrusted namespace")
  raiseIf (plan.replacementCheckpoint.nameSpace != plan.anchorNamespace)
    (Failure.catalogInvalid "replacement checkpoint namespace differs")
  raiseIf (plan.expectedCheckpoint.any fun c => c.nameSpace != plan.anchorNamespace)
    (Failure.catalogInvalid "expected checkpoint namespace differs")
  raiseIf (lib.planDigest plan.toPlanFields != plan.planSha256)
    (Failure.catalogInvalid "admission plan digest does not match its fields")
  raiseIf (lib.sha256 plan.context.rawCatalog != plan.catalogSha256 ||
      lib.sha256 plan.context.rawEnvelope != plan.envelopeSha256 ||
      !plan.context.acceptedPolicyVersions.contains plan.catalogPolicyVersion)
    (Failure.catalogInvalid "admission plan verification inputs differ from its digest bindings")
  let receipt := plan.candidate.receipt
  raiseIf (receipt.environment != plan.environment || receipt.releaseId != plan.releaseId ||
      receipt.catalogId != plan.catalogId || receipt.catalogSequence != plan.catalogSequence ||
      receipt.policyVersion != plan.catalogPolicyVersion ||
      receipt.catalogSha256 != plan.catalogSha256 ||
      lib.receiptDigest receipt != plan.verificationReceiptSha256 ||
      plan.candidate.catalog.digest != plan.catalogSha256 ||
      plan.replacementCheckpoint.sequence != plan.catalogSequence ||
      plan.replacementCheckpoint.artifactSha256 != plan.catalogSha256 ||
      plan.trustBundle.bundle.digest != plan.trustBundleSha256 ||
      plan.trustBundle.bundle.environment != plan.environment)
    (Failure.catalogInvalid "admission plan candidate or digest bindings are inconsistent")

/-- `AnchoredCatalogAdmission.ensure_current` (`catalog_admission.py:328-365`). -/
def AnchoredCatalogAdmission.ensureCurrent (a : AnchoredCatalogAdmission) (env : CatalogEnv) :
    Call Unit := do
  let current ← readCatalogCheckpoint a.anchorCheckpoint.nameSpace
  Prog.lift (raiseIf (current != some a.anchorCheckpoint)
    (Failure.catalogConflict "the admitted catalog checkpoint is no longer current"))
  let verifiedNow ← (verifyWithCurrentPolicy lib a.plan.context a.plan.trustBundle
    a.plan.environment a.plan.releaseId (some a.anchorCheckpoint) env).tryCatch fun _ =>
      Prog.raise (.catalogDenied ("the catalog no longer passes live signature, trust, Admin, or " ++
        "lifecycle verification"))
  let retained ← readCatalogCheckpoint a.anchorCheckpoint.nameSpace
  Prog.lift (raiseIf (retained != some a.anchorCheckpoint)
    (Failure.catalogConflict "the admitted catalog checkpoint changed during live revalidation"))
  Prog.lift (raiseIf (!sameVerifiedArtifact a.plan.candidate verifiedNow)
    (Failure.catalogDenied "live catalog verification returned different bound evidence"))

/-- The swap of a commit; a plan that replaces nothing has none. -/
def CatalogAdmissionPlan.settle (plan : CatalogAdmissionPlan) (current : Option DigestCheckpoint) :
    Call Unit := do
  if plan.expectedCheckpoint == some plan.replacementCheckpoint then
    Prog.lift (raiseIf (current != some plan.replacementCheckpoint)
      (Failure.catalogConflict "the idempotent catalog checkpoint is no longer current"))
  else
    let committed ← (compareAndSwap plan.expectedCheckpoint plan.replacementCheckpoint).tryCatch
      fun _ => Prog.raise (.catalogConflict "the catalog rollback checkpoint rejected the admission")
    Prog.lift (raiseIf (!committed)
      (Failure.catalogConflict "the catalog rollback checkpoint changed before commit"))
    let retained ← readCatalogCheckpoint plan.anchorNamespace
    Prog.lift (raiseIf (retained != some plan.replacementCheckpoint)
      (Failure.catalogConflict
        "the catalog rollback checkpoint did not retain the committed value"))

/-- `commit_catalog_admission` (`catalog_admission.py:628-690`). -/
def CatalogAdmissionPlan.commit (plan : CatalogAdmissionPlan) (atCommit atEnd : CatalogEnv) :
    Call AnchoredCatalogAdmission := do
  Prog.lift (plan.validate lib)
  let current ← readCatalogCheckpoint plan.anchorNamespace
  Prog.lift (raiseIf (current != plan.expectedCheckpoint)
    (Failure.catalogConflict "the catalog rollback checkpoint changed after preparation"))
  let verifiedNow ← (verifyWithCurrentPolicy lib plan.context plan.trustBundle plan.environment
    plan.releaseId current atCommit).tryCatch fun _ =>
      Prog.raise
        (.catalogDenied "catalog admission no longer passes live verification at commit")
  Prog.lift (raiseIf (!sameVerifiedArtifact plan.candidate verifiedNow)
    (Failure.catalogDenied "live commit verification returned different bound evidence"))
  plan.settle current
  let admission : AnchoredCatalogAdmission := ⟨plan, plan.replacementCheckpoint⟩
  admission.ensureCurrent lib atEnd
  pure admission

end Verify

end LumaOS.Anchors
