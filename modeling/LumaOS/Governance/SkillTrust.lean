import LumaOS.Governance.ReleaseTrust

/-!
# Skill registry trust

Model of `skill_trust.rs:16-57, 104-181, 280-345, 372-447`: purpose-separated trust bundles, signed
registry admissions, and the two operations on the anchored state, `publish` and `admit`. Root
policies, files and signatures are checked elsewhere, before the journal is written.

Both operations read everything before their only write (`safe_publish`, `safe_admitRegistry`).
-/

namespace LumaOS.Governance

open LumaOS.Base LumaOS.Text LumaOS.Json

/-- `DOMAIN`, `ROLE` and `POLICY`. -/
def skillDomain : String := "skill-registry"
def skillRole : String := "skill-registry-signer"
def skillPolicy : String := "closed-file-to-artifact-v1"

/-- `skill_trust::validity`. -/
def skillValidity (start finish : Int) : Result Unit :=
  refuseIf (start ≤ 0 || finish ≤ start || finish > 4102444800000 ||
      (i64Sub finish start).isNone)
    "skill trust validity must be positive and finite"

/-- `skill_trust::finite`. -/
def skillFinite (start finish : Int) : Result Unit := do
  skillValidity start finish
  refuseIf (finish - start > 366 * 86400000) "skill trust interval exceeds 366 days"

instance noPanic_skillFinite (start finish : Int) : NoPanic (skillFinite start finish) := by
  unfold skillFinite skillValidity
  infer_instance

/-- `skill_trust::key_der`. -/
def keyDer (publicHex : String) : Result Bytes := do
  let key ← decode 32 publicHex
  refuseIf (key == zeros 32 || hex key != publicHex)
    "skill signer requires a canonical nonzero Ed25519 public key"
  pure (ed25519Spki ++ key)

instance noPanic_keyDer (publicHex : String) : NoPanic (keyDer publicHex) := by
  unfold keyDer
  infer_instance

/-- `skill_trust::signature`. -/
def skillSignature (value : String) : Result Bytes := do
  let bytes ← decode 64 value
  refuseIf (hex bytes != value) "skill signature requires canonical lowercase hexadecimal"
  pure bytes

instance noPanic_skillSignature (value : String) : NoPanic (skillSignature value) := by
  unfold skillSignature
  infer_instance

/-! ## Bundles -/

/-- `skill_trust::Key`. -/
structure SkillKey where
  id : String
  publicKeyHex : String
  role : String
  purpose : String
  notBeforeMs : Int
  expiresMs : Int
  revoked : Bool
deriving DecidableEq, Repr

/-- `skill_trust::Trust`. -/
structure SkillBundle where
  schemaVersion : Nat
  environment : String
  domain : String
  purpose : String
  policy : String
  version : UInt64
  previousSha256 : String
  rootSha256 : String
  notBeforeMs : Int
  expiresMs : Int
  keys : List SkillKey
deriving DecidableEq, Repr

/-- `skill_trust::SignedTrust`. -/
structure SkillTrust where
  trust : SkillBundle
  signatureHex : String
deriving DecidableEq, Repr

def SkillKey.toJson (k : SkillKey) : Value :=
  .object [("id", .string k.id), ("public_key_hex", .string k.publicKeyHex),
    ("role", .string k.role), ("purpose", .string k.purpose),
    ("not_before_ms", .number k.notBeforeMs), ("expires_ms", .number k.expiresMs),
    ("revoked", .bool k.revoked)]

def SkillBundle.toJson (t : SkillBundle) : Value :=
  .object [("schema_version", .number t.schemaVersion), ("environment", .string t.environment),
    ("domain", .string t.domain), ("purpose", .string t.purpose), ("policy", .string t.policy),
    ("version", .number t.version.toNat), ("previous_sha256", .string t.previousSha256),
    ("root_sha256", .string t.rootSha256), ("not_before_ms", .number t.notBeforeMs),
    ("expires_ms", .number t.expiresMs), ("keys", .array (t.keys.map SkillKey.toJson))]

def SkillTrust.toJson (s : SkillTrust) : Value :=
  .object [("trust", s.trust.toJson), ("signature_hex", .string s.signatureHex)]

namespace SkillTrust

/-- One key of a bundle; the accumulator is the keys before it, whose identifiers and public keys
the source keeps in two sets. -/
def keyStep (sha256 : Bytes → Vector UInt8 32) (t : SkillBundle) (seen : List SkillKey)
    (key : SkillKey) : Result (List SkillKey) := do
  skillFinite key.notBeforeMs key.expiresMs
  let der ← keyDer key.publicKeyHex
  refuseIf (!identifier key.id || key.role != skillRole || key.purpose != skillDomain ||
      seen.any (fun k => k.id == key.id) ||
      seen.any (fun k => k.publicKeyHex == key.publicKeyHex) ||
      hex (sha256 der).toList == t.rootSha256 || key.notBeforeMs < t.notBeforeMs ||
      key.expiresMs > t.expiresMs)
    "skill leaf identity/purpose/role/validity is invalid or reuses its root"
  pure (seen ++ [key])

instance noPanic_keyStep (sha256 : Bytes → Vector UInt8 32) (t : SkillBundle) (seen : List SkillKey)
    (key : SkillKey) : NoPanic (keyStep sha256 t seen key) := by
  unfold keyStep
  infer_instance

/-- `SignedTrust::validate`. -/
def validate (sha256 : Bytes → Vector UInt8 32) (s : SkillTrust) : Result Unit := do
  let t := s.trust
  skillFinite t.notBeforeMs t.expiresMs
  let _ ← skillSignature s.signatureHex
  refuseIf (t.schemaVersion != 1 || !knownEnvironment t.environment || t.domain != skillDomain ||
      t.purpose != skillDomain || t.policy != skillPolicy || t.version == 0 ||
      t.version > i64Max || !isHash t.previousSha256 || !isHash t.rootSha256 ||
      t.keys.isEmpty || t.keys.length > 64 || (toVec s.toJson).length > 32768)
    "invalid bounded purpose-separated skill trust bundle"
  let _ ← t.keys.foldlM (keyStep sha256 t) []
  pure ()

instance noPanic_validate (sha256 : Bytes → Vector UInt8 32) (s : SkillTrust) :
    NoPanic (s.validate sha256) := by
  unfold validate
  infer_instance

/-- `SignedTrust::digest`: the declaration-order JSON, unlike the release bundle's. -/
def digest (sha256 : Bytes → Vector UInt8 32) (s : SkillTrust) : Result String := do
  s.validate sha256
  pure (hex (sha256 (toVec s.toJson)).toList)

instance noPanic_digest (sha256 : Bytes → Vector UInt8 32) (s : SkillTrust) :
    NoPanic (s.digest sha256) := by
  unfold digest
  infer_instance

/-- `SignedTrust::key`. -/
def key (s : SkillTrust) (id : String) : Result SkillKey :=
  okOr (s.trust.keys.find? fun k => k.id == id && !k.revoked)
    "unknown or revoked skill registry signer"

end SkillTrust

/-! ## Registry admissions -/

structure RegistryAdmission where
  schemaVersion : Nat
  environment : String
  domain : String
  purpose : String
  policy : String
  sequence : UInt64
  trustVersion : UInt64
  trustSha256 : String
  registrySha256 : String
  workflowSha256 : String
  notBeforeMs : Int
  expiresMs : Int
  signer : String
deriving DecidableEq, Repr

/-- `skill_trust::Admission`. -/
structure SkillAdmission where
  metadata : RegistryAdmission
  signatureHex : String
deriving DecidableEq, Repr

def RegistryAdmission.toJson (m : RegistryAdmission) : Value :=
  .object [("schema_version", .number m.schemaVersion), ("environment", .string m.environment),
    ("domain", .string m.domain), ("purpose", .string m.purpose), ("policy", .string m.policy),
    ("sequence", .number m.sequence.toNat), ("trust_version", .number m.trustVersion.toNat),
    ("trust_sha256", .string m.trustSha256), ("registry_sha256", .string m.registrySha256),
    ("workflow_sha256", .string m.workflowSha256), ("not_before_ms", .number m.notBeforeMs),
    ("expires_ms", .number m.expiresMs), ("signer", .string m.signer)]

def SkillAdmission.toJson (a : SkillAdmission) : Value :=
  .object [("metadata", a.metadata.toJson), ("signature_hex", .string a.signatureHex)]

namespace SkillAdmission

/-- `Admission::validate`. -/
def validate (a : SkillAdmission) : Result Unit := do
  let m := a.metadata
  skillFinite m.notBeforeMs m.expiresMs
  let _ ← skillSignature a.signatureHex
  refuseIf (m.schemaVersion != 1 || !knownEnvironment m.environment || m.domain != skillDomain ||
      m.purpose != skillDomain || m.policy != skillPolicy || m.sequence == 0 ||
      m.sequence > i64Max || m.trustVersion == 0 || !isHash m.trustSha256 ||
      !isHash m.registrySha256 || !isHash m.workflowSha256 || !identifier m.signer ||
      (toVec a.toJson).length > 4096)
    "invalid finite signed skill registry admission metadata"

instance noPanic_validate (a : SkillAdmission) : NoPanic a.validate := by
  unfold validate
  infer_instance

/-- `Admission::binding`. -/
def binding (sha256 : Bytes → Vector UInt8 32) (a : SkillAdmission) (trust : SkillTrust) :
    Result Unit := do
  let message := "registry admission does not bind the exact current skill trust and " ++
    "contained leaf validity"
  a.validate
  trust.validate sha256
  let m := a.metadata
  let key ← trust.key m.signer
  refuseIf (m.environment != trust.trust.environment || m.trustVersion != trust.trust.version)
    message
  let digest ← trust.digest sha256
  refuseIf (m.trustSha256 != digest || m.notBeforeMs < key.notBeforeMs ||
    m.expiresMs > key.expiresMs) message

instance noPanic_binding (sha256 : Bytes → Vector UInt8 32) (a : SkillAdmission)
    (trust : SkillTrust) : NoPanic (a.binding sha256 trust) := by
  unfold binding SkillTrust.key
  infer_instance

end SkillAdmission

/-! ## The state machine -/

/-- `skill_trust::State`. -/
structure SkillState where
  trust : SkillTrust
  floor : UInt64
  current : Option SkillAdmission
deriving DecidableEq, Repr

namespace SkillState

/-- A key of the anchored bundle in the next one: retained and not un-revoked. -/
def rotateKey (next : SkillTrust) (key : SkillKey) : Result Unit := do
  let replacement ← okOr (next.trust.keys.find? fun k => k.id == key.id)
    "skill trust must retain historical signer identities"
  refuseIf (key.publicKeyHex != replacement.publicKeyHex || (key.revoked && !replacement.revoked))
    "skill signer identity reuse or revocation reversal refused"

instance noPanic_rotateKey (next : SkillTrust) (key : SkillKey) : NoPanic (rotateKey next key) := by
  unfold rotateKey
  infer_instance

/-- The digest a publication must name as its predecessor. -/
def predecessor (sha256 : Bytes → Vector UInt8 32) (previous : Option SkillState) :
    Result String :=
  match previous with
  | none => .ok (repeatText "0" 64)
  | some old => old.trust.digest sha256

instance noPanic_predecessor (sha256 : Bytes → Vector UInt8 32) (previous : Option SkillState) :
    NoPanic (predecessor sha256 previous) := by
  cases previous with
  | none => exact noPanic_ok _
  | some old => exact inferInstanceAs (NoPanic (old.trust.digest sha256))

/-- The continuity of a publication with the anchored state, if there is one. -/
def rotation (previous : Option SkillState) (next : SkillTrust) : Result Unit :=
  match previous with
  | none => .ok ()
  | some old => do
    refuseIf (next.trust.environment != old.trust.trust.environment ||
        next.trust.rootSha256 != old.trust.trust.rootSha256)
      "skill publication cannot replace the provisioned root or environment"
    old.trust.trust.keys.forM (rotateKey next)

instance noPanic_rotation (previous : Option SkillState) (next : SkillTrust) :
    NoPanic (rotation previous next) := by
  unfold rotation
  split
  · infer_instance
  · infer_instance

/-- The state a publication leaves. -/
def withTrust (previous : Option SkillState) (next : SkillTrust) : SkillState :=
  match previous with
  | none => { trust := next, floor := 0, current := none }
  | some old => { old with trust := next }

/-- `skill_trust::publish` (`skill_trust.rs:378-426`). -/
def publish (sha256 : Bytes → Vector UInt8 32) (expected : UInt64) (next : SkillTrust) :
    Mut (Option SkillState) Unit := do
  next.validate sha256
  let previous ← get
  let message := "skill trust publication requires the exact current version and predecessor"
  refuseIf (expected != (previous.map fun s => s.trust.trust.version).getD 0) message
  let version ← okOr (u64Add expected 1) "skill trust version exhausted"
  refuseIf (next.trust.version != version) message
  let digest ← predecessor sha256 previous
  refuseIf (next.trust.previousSha256 != digest) message
  rotation previous next
  set (some (withTrust previous next))

/-- `skill_trust::admit` (`skill_trust.rs:427-447`). -/
def admitRegistry (sha256 : Bytes → Vector UInt8 32) (expectedFloor : UInt64)
    (admission : SkillAdmission) : Mut (Option SkillState) Unit := do
  let s ← okOr (← get) "skill trust must be anchored before registry admission"
  admission.binding sha256 s.trust
  refuseIf (expectedFloor != s.floor || admission.metadata.sequence < s.floor ||
      (admission.metadata.sequence == s.floor && s.current != some admission))
    ("skill registry admission lowers a floor, changes a same-sequence digest or uses a " ++
      "stale review")
  set (some { s with floor := admission.metadata.sequence, current := some admission })

theorem safe_publish (sha256 : Bytes → Vector UInt8 32) (expected : UInt64) (next : SkillTrust)
    (s : Option SkillState) :
    Mut.Safe (publish sha256 expected next) s fun _ s' => s' = some (withTrust s next) := by
  unfold publish
  exact Mut.safe_bind_lift fun _ _ => Mut.safe_bind_get (Mut.safe_bind_lift fun _ _ =>
    Mut.safe_bind_lift fun _ _ => Mut.safe_bind_lift fun _ _ => Mut.safe_bind_lift fun _ _ =>
    Mut.safe_bind_lift fun _ _ => Mut.safe_bind_lift fun _ _ => Mut.safe_set rfl)

theorem safe_admitRegistry (sha256 : Bytes → Vector UInt8 32) (expectedFloor : UInt64)
    (a : SkillAdmission) (s : Option SkillState) :
    Mut.Safe (admitRegistry sha256 expectedFloor a) s fun _ s' => ∃ old, s = some old ∧
      s' = some { old with floor := a.metadata.sequence, current := some a } := by
  unfold admitRegistry
  exact Mut.safe_bind_get (Mut.safe_bind_lift fun old hold => Mut.safe_bind_lift fun _ _ =>
    Mut.safe_bind_lift fun _ _ => Mut.safe_set ⟨old, okOr_eq_ok.mp hold, rfl⟩)

end SkillState

end LumaOS.Governance
