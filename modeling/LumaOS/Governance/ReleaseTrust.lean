import LumaOS.Governance.Grants

/-!
# Release trust and release admission

Model of `bundle::validate_manifest` (`bundle.rs:15-125`) and of the release state machine
(`release_trust.rs:24-394`): trust bundles with their delegated keys, signed releases, and the four
operations `publish`, `prepare`, `initialize` and `resolve` on the anchored state.

SHA-256 and `serde_json::from_str` for manifests are parameters (`Formats`). `SignedTrust::digest`
hashes the key-sorted JSON of the bundle, as `to_value` orders it.
-/

namespace LumaOS.Governance

open LumaOS.Base LumaOS.Text LumaOS.Json

/-! ## Manifests -/

structure Artifact where
  name : String
  bytes : UInt64
  sha256 : String
deriving DecidableEq, Repr

structure Manifest where
  schemaVersion : Nat
  release : String
  sequence : UInt64
  environment : String
  architecture : String
  ubuntu : String
  edition : String
  rootHash : String
  rootBytes : UInt64
  hashBytes : UInt64
  artifacts : List Artifact
deriving DecidableEq, Repr

/-- What the release code takes from outside the repository. -/
structure Formats where
  /-- `Sha256::digest`. -/
  sha256 : Bytes → Vector UInt8 32
  /-- `serde_json::from_str::<Manifest>`. -/
  parseManifest : String → Except String Manifest

def mebi : UInt64 := 1024 * 1024
def gibi : UInt64 := 1024 * 1024 * 1024

/-- The closed artifact inventory with its size limits. -/
def artifactLimit (name : String) : Option UInt64 :=
  if name == "root.ext4" then some (32 * gibi)
  else if name == "root.verity" then some (512 * mebi)
  else if name == "slot-a.efi" || name == "slot-b.efi" then some (256 * mebi)
  else if name == "bootloader.efi" then some (16 * mebi)
  else if name == "secureboot.cer" then some (16 * 1024)
  else none

def requiredArtifacts : List String :=
  ["root.ext4", "root.verity", "slot-a.efi", "slot-b.efi", "bootloader.efi", "secureboot.cer"]

/-- `matches!(value, "lab" | "production")`. -/
def knownEnvironment (value : String) : Bool := value == "lab" || value == "production"

/-- One artifact of a manifest. -/
def Manifest.artifactStep (m : Manifest) (a : Artifact) : Result Unit := do
  let maximum ← okOr (artifactLimit a.name) "unsupported release artifact"
  refuseIf (a.bytes == 0 || a.bytes > maximum || !isHash a.sha256) "invalid artifact bounds"
  refuseIf ((a.name == "root.ext4" && a.bytes != m.rootBytes) ||
    (a.name == "root.verity" && a.bytes != m.hashBytes)) "root geometry mismatch"

/-- `bundle::validate_manifest`. Two name sets are equal when each contains the other. -/
def Manifest.validate (m : Manifest) : Result Unit := do
  refuseIf (m.schemaVersion != 1 || !knownEnvironment m.environment || m.architecture != "amd64" ||
      m.ubuntu != "24.04" || !(m.edition == "desktop" || m.edition == "headless") ||
      m.sequence == 0 || m.sequence > i64Max || m.release.isEmpty ||
      m.release.utf8ByteSize > 64 ||
      !m.release.toList.all (fun c => c.isAlphanum || c == '.' || c == '-' || c == '_') ||
      !isHash m.rootHash || m.rootBytes < 512 * mebi || m.rootBytes > 32 * gibi ||
      m.rootBytes % 4096 != 0 || m.hashBytes == 0 || m.hashBytes > 512 * mebi ||
      m.hashBytes % 4096 != 0)
    "invalid or unsupported release manifest"
  let names := m.artifacts.map (·.name)
  refuseIf (m.artifacts.length != requiredArtifacts.length ||
      !(names.all requiredArtifacts.contains && requiredArtifacts.all names.contains))
    "closed artifact inventory mismatch"
  m.artifacts.forM m.artifactStep

instance Manifest.noPanic_validate (m : Manifest) : NoPanic m.validate := by
  unfold Manifest.validate Manifest.artifactStep
  infer_instance

/-! ## Trust bundles -/

/-- `release_trust::Key`. -/
structure ReleaseKey where
  id : String
  publicKeyHex : String
  purpose : String
  notBeforeMs : Int
  expiresMs : Int
  revoked : Bool
deriving DecidableEq, Repr

/-- `release_trust::Trust`. -/
structure ReleaseBundle where
  schemaVersion : Nat
  environment : String
  version : UInt64
  rootSha256 : String
  notBeforeMs : Int
  expiresMs : Int
  keys : List ReleaseKey
deriving DecidableEq, Repr

/-- `release_trust::SignedTrust`. -/
structure ReleaseTrust where
  trust : ReleaseBundle
  signatureHex : String
deriving DecidableEq, Repr

def ReleaseKey.toJson (k : ReleaseKey) : Value :=
  .object [("id", .string k.id), ("public_key_hex", .string k.publicKeyHex),
    ("purpose", .string k.purpose), ("not_before_ms", .number k.notBeforeMs),
    ("expires_ms", .number k.expiresMs), ("revoked", .bool k.revoked)]

def ReleaseBundle.toJson (t : ReleaseBundle) : Value :=
  .object [("schema_version", .number t.schemaVersion), ("environment", .string t.environment),
    ("version", .number t.version.toNat), ("root_sha256", .string t.rootSha256),
    ("not_before_ms", .number t.notBeforeMs), ("expires_ms", .number t.expiresMs),
    ("keys", .array (t.keys.map ReleaseKey.toJson))]

def ReleaseTrust.toJson (s : ReleaseTrust) : Value :=
  .object [("trust", s.trust.toJson), ("signature_hex", .string s.signatureHex)]

/-- The DER prefix of an Ed25519 public key. -/
def ed25519Spki : Bytes := [0x30, 0x2a, 0x30, 0x05, 0x06, 0x03, 0x2b, 0x65, 0x70, 0x03, 0x21, 0x00]

/-- `release_trust::validity`. -/
def releaseValidity (start finish : Int) : Result Unit :=
  refuseIf (start ≤ 0 || finish > 4102444800000 || finish ≤ start ||
      (match i64Sub finish start with
        | none => true
        | some v => v > 366 * 86400000))
    "release trust validity must be finite, positive and at most 366 days"

namespace ReleaseTrust

/-- One key of a bundle; the accumulator is the keys before it, whose identifiers and public keys
the source keeps in two sets. -/
def keyStep (sha256 : Bytes → Vector UInt8 32) (t : ReleaseBundle) (seen : List ReleaseKey)
    (key : ReleaseKey) : Result (List ReleaseKey) := do
  let message := "release key must have a unique fixed ID/public key and os-release purpose"
  refuseIf (!identifier key.id || key.purpose != "os-release" ||
    seen.any (fun k => k.id == key.id) ||
    seen.any (fun k => k.publicKeyHex == key.publicKeyHex)) message
  let material ← decode 32 key.publicKeyHex
  refuseIf (material == zeros 32) message
  releaseValidity key.notBeforeMs key.expiresMs
  refuseIf (t.environment == "production" &&
      hex (sha256 (ed25519Spki ++ material)).toList == t.rootSha256)
    "offline production trust root cannot also be a delegated OS release signing key"
  refuseIf (key.notBeforeMs < t.notBeforeMs || key.expiresMs > t.expiresMs)
    "release key validity escapes root-authorized bundle"
  pure (seen ++ [key])

/-- `SignedTrust::validate`. -/
def validate (sha256 : Bytes → Vector UInt8 32) (s : ReleaseTrust) : Result Unit := do
  let t := s.trust
  refuseIf (t.schemaVersion != 1 || !knownEnvironment t.environment || t.version == 0 ||
      t.version > i64Max || t.keys.isEmpty || t.keys.length > 64 ||
      (toVec s.toJson).length > 16384)
    "invalid release trust schema/environment/version/bounds"
  let _ ← decode 32 t.rootSha256
  let _ ← decode 64 s.signatureHex
  releaseValidity t.notBeforeMs t.expiresMs
  let _ ← t.keys.foldlM (keyStep sha256 t) []
  pure ()

instance noPanic_keyStep (sha256 : Bytes → Vector UInt8 32) (t : ReleaseBundle)
    (seen : List ReleaseKey) (key : ReleaseKey) : NoPanic (keyStep sha256 t seen key) := by
  unfold keyStep releaseValidity
  infer_instance

instance noPanic_validate (sha256 : Bytes → Vector UInt8 32) (s : ReleaseTrust) :
    NoPanic (s.validate sha256) := by
  unfold validate releaseValidity
  infer_instance

/-- `SignedTrust::digest`. -/
def digest (sha256 : Bytes → Vector UInt8 32) (s : ReleaseTrust) : Result String := do
  s.validate sha256
  pure (hex (sha256 (toVec (sorted s.toJson))).toList)

instance noPanic_digest (sha256 : Bytes → Vector UInt8 32) (s : ReleaseTrust) :
    NoPanic (s.digest sha256) := by
  unfold digest
  infer_instance

/-- `SignedTrust::key`. -/
def key (s : ReleaseTrust) (id : String) : Result ReleaseKey :=
  okOr (s.trust.keys.find? fun k => k.id == id && !k.revoked) "unknown or revoked release signer"

instance noPanic_key (s : ReleaseTrust) (id : String) : NoPanic (s.key id) := noPanic_okOr _ _

end ReleaseTrust

/-! ## Signed releases -/

structure SignedRelease where
  manifest : Manifest
  manifestJson : String
  signatureHex : String
  signer : String
deriving DecidableEq, Repr

/-- `SignedRelease::validate`. -/
def SignedRelease.validate (f : Formats) (r : SignedRelease) : Result Unit := do
  let message := "release admission must bind exact signed manifest bytes and signer"
  r.manifest.validate
  let _ ← decode 64 r.signatureHex
  refuseIf (!identifier r.signer || r.manifestJson.isEmpty || r.manifestJson.utf8ByteSize > 65536)
    message
  let parsed ← ofForeign (f.parseManifest r.manifestJson)
  refuseIf (parsed != r.manifest) message

instance SignedRelease.noPanic_validate (f : Formats) (r : SignedRelease) :
    NoPanic (r.validate f) := by
  unfold SignedRelease.validate
  infer_instance

/-- `SignedRelease::digest`. -/
def SignedRelease.digest (f : Formats) (r : SignedRelease) : Result String := do
  r.validate f
  pure (hex (f.sha256 r.manifestJson.toUTF8.data.toList).toList)

instance SignedRelease.noPanic_digest (f : Formats) (r : SignedRelease) : NoPanic (r.digest f) := by
  unfold SignedRelease.digest
  infer_instance

inductive Outcome where
  | confirmed
  | fallback
  | abandoned
deriving DecidableEq, Repr

/-- `release_trust::Admission`. -/
structure ReleaseAdmission where
  prior : Manifest
  candidate : SignedRelease
  trustVersion : UInt64
  trustSha256 : String
deriving DecidableEq, Repr

/-- `release_trust::State`. -/
structure ReleaseState where
  trust : ReleaseTrust
  floor : UInt64
  acknowledged : Option Manifest
  pending : Option ReleaseAdmission
  retained : Option Manifest
deriving DecidableEq, Repr

namespace ReleaseState

/-- A key of the anchored bundle in the next one: retained, unchanged, not un-revoked. -/
def rotateKey (next : ReleaseTrust) (key : ReleaseKey) : Result Unit := do
  let replacement ← okOr (next.trust.keys.find? fun k => k.id == key.id)
    "release trust must retain historical key identities and revocations"
  refuseIf (key.publicKeyHex != replacement.publicKeyHex || key.purpose != replacement.purpose ||
      (key.revoked && !replacement.revoked))
    "release trust cannot reuse an ID/key or undo revocation"

instance noPanic_rotateKey (next : ReleaseTrust) (key : ReleaseKey) :
    NoPanic (rotateKey next key) := by
  unfold rotateKey
  infer_instance

/-- The continuity of a publication with the anchored state, if there is one. -/
def rotation (previous : Option ReleaseState) (next : ReleaseTrust) : Result Unit :=
  match previous with
  | none => .ok ()
  | some old => do
    refuseIf (old.trust.trust.environment != next.trust.environment ||
        old.trust.trust.rootSha256 != next.trust.rootSha256)
      "release trust cannot replace its provisioned root or environment"
    old.trust.trust.keys.forM (rotateKey next)

instance noPanic_rotation (previous : Option ReleaseState) (next : ReleaseTrust) :
    NoPanic (rotation previous next) := by
  unfold rotation
  split
  · infer_instance
  · infer_instance

/-- The state a publication leaves. -/
def withTrust (previous : Option ReleaseState) (next : ReleaseTrust) : ReleaseState :=
  match previous with
  | none => { trust := next, floor := 0, acknowledged := none, pending := none, retained := none }
  | some old => { old with trust := next }

/-- `release_trust::publish` (`release_trust.rs:269-311`). -/
def publish (f : Formats) (expected : UInt64) (next : ReleaseTrust) :
    Mut (Option ReleaseState) Unit := do
  next.validate f.sha256
  let previous ← get
  let message := "release trust publication has a stale/nonconsecutive version"
  refuseIf (expected != (previous.map fun s => s.trust.trust.version).getD 0) message
  let version ← okOr (u64Add expected 1) "release trust version exhausted"
  refuseIf (next.trust.version != version) message
  rotation previous next
  set (some (withTrust previous next))

/-- `release_trust::prepare` (`release_trust.rs:313-350`). -/
def prepare (f : Formats) (expectedFloor : UInt64) (admission : ReleaseAdmission) :
    Mut (Option ReleaseState) Unit := do
  let message := "release admission conflicts with floor, pending transaction, geometry, " ++
    "edition or acknowledged identity"
  admission.candidate.validate f
  admission.prior.validate
  let s ← okOr (← get) "release trust must be anchored before admission"
  refuseIf (s.pending.isSome || s.floor != expectedFloor ||
    admission.trustVersion != s.trust.trust.version) message
  let digest ← s.trust.digest f.sha256
  let candidate := admission.candidate.manifest
  refuseIf (admission.trustSha256 != digest ||
    admission.prior.environment != s.trust.trust.environment ||
    candidate.environment != s.trust.trust.environment ||
    candidate.sequence ≤ u64Larger s.floor admission.prior.sequence ||
    candidate.edition != admission.prior.edition ||
    candidate.rootBytes != admission.prior.rootBytes ||
    candidate.hashBytes != admission.prior.hashBytes ||
    s.acknowledged.any (fun m => m != admission.prior)) message
  let _ ← s.trust.key admission.candidate.signer
  set (some { s with
    floor := candidate.sequence
    acknowledged := some admission.prior
    pending := some admission })

/-- `release_trust::initialize` (`release_trust.rs:352-371`). -/
def initializeRelease (f : Formats) (release : SignedRelease) :
    Mut (Option ReleaseState) Unit := do
  release.validate f
  let s ← okOr (← get) "initial release requires anchored public trust"
  refuseIf (s.floor != 0 || s.acknowledged.isSome || s.pending.isSome || s.retained.isSome ||
      release.manifest.environment != s.trust.trust.environment)
    "initial release cannot reset or replace existing release authority"
  let _ ← s.trust.key release.signer
  set (some { s with floor := release.manifest.sequence, acknowledged := some release.manifest })

/-- `release_trust::resolve` (`release_trust.rs:373-394`): the floor never follows a fallback. -/
def resolve (f : Formats) (candidateDigest : String) (outcome : Outcome) :
    Mut (Option ReleaseState) Unit := do
  let _ ← decode 32 candidateDigest
  let s ← okOr (← get) "missing release authority"
  let admission ← okOr s.pending "no release transaction to resolve"
  let digest ← admission.candidate.digest f
  refuseIf (digest != candidateDigest || s.floor != admission.candidate.manifest.sequence)
    "release recovery must select its exact admitted candidate and unchanged floor"
  match outcome with
  | .confirmed => do
    let _ ← s.trust.key admission.candidate.signer
    set (some { s with
      retained := some admission.prior
      acknowledged := some admission.candidate.manifest
      pending := none })
  | .fallback => set (some { s with acknowledged := some admission.prior, pending := none })
  | .abandoned => set (some { s with acknowledged := some admission.prior, pending := none })

end ReleaseState

end LumaOS.Governance
