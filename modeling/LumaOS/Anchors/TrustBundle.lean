import LumaOS.Anchors.Checkpoint

/-!
# Anchored trust bundles

`prepare_trust_bundle`, `commit_trust_bundle` and `AnchoredTrustBundle.ensure_current`
(`signing_trust.py`), cut at their reads and swaps of the anchor. The bundle parser is a parameter.
What a verification meets outside, the clock and the signature provider, is a `TrustEnv`, another one
for each verification of a call. Times are numbers.

A plan is a value that any caller may hold; that only `prepare_trust_bundle` makes plans is not used,
since `commit_trust_bundle` prepares again and compares.
-/

namespace LumaOS.Anchors

open LumaOS.Base LumaOS.Text

structure RootTrustAnchor where
  keyId : String
  environment : String
  trustDomain : String
  publicKey : Bytes
  notBefore : Nat
  notAfter : Nat
  revokedAt : Option Nat
deriving DecidableEq

/-- `RootTrustAnchor.permits`. -/
def RootTrustAnchor.permits (r : RootTrustAnchor) (at' : Nat) : Bool :=
  r.notBefore ≤ at' && at' < r.notAfter && r.revokedAt.all fun revoked => at' < revoked

structure TrustBundlePolicy where
  environment : String
  trustDomain : String
  anchorNamespace : String
  acceptedPolicyVersions : List String
  forbiddenPublicKeys : List Bytes

structure SigningTrustKey where
  keyId : String
  publicKey : Bytes
deriving DecidableEq

structure SignedTrustBundle where
  environment : String
  trustDomain : String
  bundleSequence : Nat
  previousBundleSha256 : Option String
  policyVersion : String
  rootKeyId : String
  issuedAt : Nat
  notBefore : Nat
  notAfter : Nat
  keys : List SigningTrustKey
  signedBytes : Bytes
  signature : Bytes
  digest : String
deriving DecidableEq

/-- `_TrustVerificationContext` without the clock and the signature provider. -/
structure TrustContext where
  rawBundle : Bytes
  rootAnchors : List RootTrustAnchor
  policy : TrustBundlePolicy

/-- What one verification meets: the time, and the answer of the signature provider to a message, a
signature and a public key. -/
structure TrustEnv where
  clock : Except Failure Nat
  crypto : Bytes → Bytes → Bytes → Except Failure Bool

structure TrustBundleAdmissionPlan where
  bundle : SignedTrustBundle
  rootAnchor : RootTrustAnchor
  expectedCheckpoint : Option DigestCheckpoint
  replacementCheckpoint : Option DigestCheckpoint
  context : TrustContext

structure AnchoredTrustBundle where
  bundle : SignedTrustBundle
  checkpoint : DigestCheckpoint
  rootAnchor : RootTrustAnchor
  context : TrustContext

/-- `_validate_root_set`. -/
def validateRootSet (roots : List RootTrustAnchor) : Except Failure Unit := do
  raiseIf (roots.isEmpty || roots.length > 32)
    (Failure.signingTrust "root_anchors must contain one to 32 root anchors")
  raiseIf (!decide (roots.map (·.keyId)).Nodup)
    (Failure.signingTrust "root key IDs must be globally unique")
  raiseIf (!decide (roots.map (·.publicKey)).Nodup)
    (Failure.signingTrust "lab and production roots must not reuse public keys")

section Prepare

variable (parse : Bytes → Except Failure SignedTrustBundle)

/-- The checks of a parsed bundle that need no root. -/
def SignedTrustBundle.admissible (bundle : SignedTrustBundle) (policy : TrustBundlePolicy)
    (observedAt : Nat) : Except Failure Unit := do
  raiseIf (bundle.environment != policy.environment)
    (Failure.trustDenied "trust-bundle environment does not match trusted policy")
  raiseIf (bundle.trustDomain != policy.trustDomain)
    (Failure.trustDenied "trust-bundle domain does not match trusted policy")
  raiseIf (!policy.acceptedPolicyVersions.contains bundle.policyVersion)
    (Failure.trustDenied "trust-bundle policy version is not accepted")
  raiseIf (!(bundle.notBefore ≤ observedAt && observedAt < bundle.notAfter))
    (Failure.trustDenied "trust bundle is not currently valid")
  raiseIf (bundle.issuedAt > observedAt)
    (Failure.trustDenied "trust-bundle issue time is in the future")

/-- The one root anchor that a bundle selects. -/
def selectRoot (bundle : SignedTrustBundle) (roots : List RootTrustAnchor) :
    Except Failure RootTrustAnchor :=
  match roots.filter fun r => r.keyId == bundle.rootKeyId && r.environment == bundle.environment &&
      r.trustDomain == bundle.trustDomain with
  | [root] => .ok root
  | _ =>
    .error (.trustDenied "trust bundle does not select exactly one external root anchor")

/-- The checks of a bundle under its root. -/
def SignedTrustBundle.rooted (bundle : SignedTrustBundle) (root : RootTrustAnchor)
    (context : TrustContext) (observedAt : Nat) : Except Failure Unit := do
  raiseIf (bundle.notBefore < root.notBefore ||
      bundle.notAfter > min root.notAfter (root.revokedAt.getD root.notAfter))
    (Failure.trustDenied "trust-bundle validity must be contained by root effective validity")
  raiseIf (!root.permits bundle.issuedAt || !root.permits observedAt)
    (Failure.trustDenied "trust root is not permitted at issue and verification time")
  raiseIf (context.policy.forbiddenPublicKeys.contains root.publicKey)
    (Failure.trustDenied "trust root violates environment key separation")
  raiseIf (bundle.keys.any fun k => context.policy.forbiddenPublicKeys.contains k.publicKey)
    (Failure.trustDenied "trust key is reused across separated environments")
  raiseIf (bundle.keys.any fun k => (context.rootAnchors.map (·.publicKey)).contains k.publicKey)
    (Failure.trustDenied "a trust-bundle leaf key cannot reuse a root public key")

/-- The answer of the signature provider. -/
def TrustEnv.signatureValid (env : TrustEnv) (bundle : SignedTrustBundle) (root : RootTrustAnchor) :
    Except Failure Unit :=
  match env.crypto bundle.signedBytes bundle.signature root.publicKey with
  | .ok valid => raiseIf (!valid) (Failure.trustDenied "trust-bundle root signature is invalid")
  | .error _ => .error (.trustDenied "public Ed25519 provider is unavailable")

/-- Everything `prepare_trust_bundle` checks before it reads the anchor. -/
def TrustContext.verify (context : TrustContext) (env : TrustEnv) :
    Except Failure (SignedTrustBundle × RootTrustAnchor) := do
  validateRootSet context.rootAnchors
  let observedAt ← env.clock
  let bundle ← parse context.rawBundle
  bundle.admissible context.policy observedAt
  let root ← selectRoot bundle context.rootAnchors
  bundle.rooted root context observedAt
  env.signatureValid bundle root
  pure (bundle, root)

/-- `_read_checkpoint` of `signing_trust.py`. -/
def readTrustCheckpoint (nameSpace : String) : Call (Option DigestCheckpoint) := do
  let checkpoint ← (read nameSpace).tryCatch fun _ =>
    Prog.raise (.trustDenied "external trust anchor is unavailable")
  Prog.lift (raiseIf (checkpoint.any fun c => c.nameSpace != nameSpace)
    (Failure.trustDenied "external trust anchor returned the wrong namespace"))
  pure checkpoint

/-- The checkpoint that would replace `current`; none if the bundle is the current one. -/
def SignedTrustBundle.replacement (bundle : SignedTrustBundle) (nameSpace : String) :
    Option DigestCheckpoint → Except Failure (Option DigestCheckpoint)
  | none => do
    raiseIf (bundle.bundleSequence != 1 || bundle.previousBundleSha256.isSome)
      (Failure.trustDenied "trust anchor genesis requires sequence one without a predecessor")
    some <$> DigestCheckpoint.make nameSpace 1 1 bundle.digest
  | some current =>
    if bundle.bundleSequence < current.sequence then
      .error (.trustDenied "trust-bundle sequence is below the external rollback checkpoint")
    else if bundle.bundleSequence == current.sequence then do
      raiseIf (bundle.digest != current.artifactSha256)
        (Failure.trustDenied "trust-bundle digest forks the externally anchored sequence")
      pure none
    else do
      raiseIf (bundle.bundleSequence != current.sequence + 1)
        (Failure.trustDenied "trust-bundle sequence must advance exactly once")
      raiseIf (bundle.previousBundleSha256 != some current.artifactSha256)
        (Failure.trustDenied "trust-bundle predecessor differs from the external checkpoint")
      some <$> DigestCheckpoint.make nameSpace (current.generation + 1) bundle.bundleSequence
        bundle.digest

/-- `prepare_trust_bundle` (`signing_trust.py:974-1126`). -/
def TrustContext.prepare (context : TrustContext) (env : TrustEnv) :
    Call TrustBundleAdmissionPlan := do
  let verified ← Prog.lift (context.verify parse env)
  let current ← readTrustCheckpoint context.policy.anchorNamespace
  let replacement ← Prog.lift (verified.1.replacement context.policy.anchorNamespace current)
  pure ⟨verified.1, verified.2, current, replacement, context⟩

/-- `AnchoredTrustBundle.ensure_current` (`signing_trust.py:857-883`). -/
def AnchoredTrustBundle.ensureCurrent (a : AnchoredTrustBundle) (env : TrustEnv) : Call Unit := do
  let _ ← Prog.lift env.clock
  let revalidated ← (a.context.prepare parse env).tryCatch fun _ =>
    Prog.raise (.trustDenied ("anchored trust bundle no longer passes live root, policy, " ++
      "lifecycle, signature, or checkpoint verification"))
  Prog.lift (raiseIf (revalidated.bundle != a.bundle || revalidated.rootAnchor != a.rootAnchor ||
      revalidated.expectedCheckpoint != some a.checkpoint ||
      revalidated.replacementCheckpoint.isSome)
    (Failure.trustDenied "anchored trust bundle is no longer the exact current checkpoint"))

/-- The preparation that a commit repeats. -/
def TrustBundleAdmissionPlan.revalidate (plan : TrustBundleAdmissionPlan) (env : TrustEnv) :
    Call TrustBundleAdmissionPlan :=
  (plan.context.prepare parse env).tryCatch fun _ => do
    let afterFailure ← (readTrustCheckpoint plan.context.policy.anchorNamespace).tryCatch fun _ =>
      pure plan.expectedCheckpoint
    Prog.lift (raiseIf (afterFailure != plan.expectedCheckpoint)
      (Failure.trustConflict "external trust checkpoint changed during live verification"))
    Prog.raise (.trustDenied "trust bundle no longer passes live verification at commit")

/-- The checkpoint after the swap of a commit, or the current one where there is none to do. -/
def TrustBundleAdmissionPlan.settle (plan : TrustBundleAdmissionPlan) :
    Call (Option DigestCheckpoint) :=
  match plan.replacementCheckpoint with
  | none => do
    -- `plan.expected_checkpoint.namespace` is an `AttributeError` without a checkpoint
    let expected ← Prog.lift (match plan.expectedCheckpoint with
      | some expected => Except.ok expected
      | none => Except.error (Failure.other "AttributeError"))
    let current ← readTrustCheckpoint expected.nameSpace
    Prog.lift (raiseIf (current != plan.expectedCheckpoint)
      (Failure.trustConflict "external trust checkpoint changed after preparation"))
    pure current
  | some replacement => do
    let changed ← (compareAndSwap plan.expectedCheckpoint replacement).tryCatch fun _ =>
      Prog.raise (.trustConflict "external trust checkpoint rejected the update")
    Prog.lift (raiseIf (!changed)
      (Failure.trustConflict "external trust checkpoint changed after preparation"))
    let committed ← readTrustCheckpoint replacement.nameSpace
    Prog.lift (raiseIf (committed != some replacement)
      (Failure.trustConflict "external trust checkpoint did not retain the committed value"))
    pure committed

/-- `commit_trust_bundle` (`signing_trust.py:1129-1228`). -/
def TrustBundleAdmissionPlan.commit (plan : TrustBundleAdmissionPlan) (atCommit atEnd : TrustEnv) :
    Call AnchoredTrustBundle := do
  let nameSpace := plan.context.policy.anchorNamespace
  let before ← readTrustCheckpoint nameSpace
  Prog.lift (raiseIf (before != plan.expectedCheckpoint)
    (Failure.trustConflict "external trust checkpoint changed after preparation"))
  let _ ← Prog.lift atCommit.clock
  let revalidated ← plan.revalidate parse atCommit
  let after ← readTrustCheckpoint nameSpace
  Prog.lift (raiseIf (after != plan.expectedCheckpoint)
    (Failure.trustConflict "external trust checkpoint changed during live verification"))
  Prog.lift (raiseIf (revalidated.bundle != plan.bundle ||
      revalidated.rootAnchor != plan.rootAnchor ||
      revalidated.expectedCheckpoint != plan.expectedCheckpoint ||
      revalidated.replacementCheckpoint != plan.replacementCheckpoint)
    (Failure.trustDenied "live trust verification differs from the prepared candidate"))
  let committed ← plan.settle
  match committed with
  | none =>
    Prog.raise (.trustConflict "external trust checkpoint does not bind the verified bundle")
  | some committed =>
    Prog.lift (raiseIf (committed.artifactSha256 != plan.bundle.digest)
      (Failure.trustConflict "external trust checkpoint does not bind the verified bundle"))
    let anchored : AnchoredTrustBundle := ⟨plan.bundle, committed, plan.rootAnchor, plan.context⟩
    anchored.ensureCurrent parse atEnd
    pure anchored

end Prepare

end LumaOS.Anchors
