import LumaOS.Governance.Identity

/-!
# Account transaction intents

The inert records an account transaction is prepared from, and what each of them has to satisfy
before the catalog stores it: UTC history statements (`utc_history.rs:14-40`), credential
transitions (`account_transition.rs:14-107`), creations (`account_creation.rs:15-71`) and
deletions (`account_deletion.rs:14-75`). All three transactions share one phase.

`ApprovedPolicy::fixed` parses the compiled policy bytes and always accepts them, so its digest is
the hash of the bytes under their domain tag.
-/

namespace LumaOS.Governance

open LumaOS.Base LumaOS.Text

/-! ## UTC history statements -/

structure UtcStatement where
  floorMs : Int
  policySha256 : String
  bootId : String
  processGeneration : UInt64
  sourceClockGeneration : UInt64
  keeperGeneration : UInt64
  runtimeSha256 : String
deriving DecidableEq, Repr

/-- `POLICY_BYTES` (`native/image/utc/approved-policy.json`). -/
def policyBytes : Bytes := ("\x7b\n  \"schema_version\": 1,\n" ++
  "  \"approved_on\": \"2026-10-05\",\n" ++
  "  \"operators\": [\n" ++
  "    \x7b\"id\": 1, \"name\": \"Cloudflare\", \"hostname\": \"time.cloudflare.com\"\x7d,\n" ++
  "    \x7b\"id\": 2, \"name\": \"Netnod\", \"hostname\": \"nts.netnod.se\"\x7d,\n" ++
  "    \x7b\"id\": 3, \"name\": \"PTB\", \"hostname\": \"ptbtime1.ptb.de\"\x7d\n  ],\n" ++
  "  \"minimum_operators\": 2,\n  \"max_age_ms\": 180000,\n  \"max_width_ms\": 500,\n" ++
  "  \"rate_error_ppm\": 100,\n  \"offline_authorization\": \"deny\",\n" ++
  "  \"leap_action\": \"fence\"\n\x7d\n").toUTF8.data.toList

/-- `ApprovedPolicy::fixed()?.digest()`. -/
def policyDigest (sha256 : Bytes → Vector UInt8 32) : Bytes :=
  (sha256 ("luma-native-approved-utc-policy-v1\x00".toUTF8.data.toList ++ policyBytes)).toList

/-- `Statement::validate`. -/
def UtcStatement.validate (sha256 : Bytes → Vector UInt8 32) (s : UtcStatement) :
    Result Unit := do
  let message := "invalid UTC history statement"
  refuseIf (s.floorMs ≤ 0 || s.floorMs > 4102444800000) message
  let policy ← decode 32 s.policySha256
  refuseIf (policy != policyDigest sha256) message
  let boot ← emptyDigest 16 s.bootId
  refuseIf boot message
  let runtime ← emptyDigest 32 s.runtimeSha256
  refuseIf (runtime || s.processGeneration == 0 || s.sourceClockGeneration == 0 ||
    s.keeperGeneration == 0) message

instance UtcStatement.noPanic_validate (sha256 : Bytes → Vector UInt8 32) (s : UtcStatement) :
    NoPanic (s.validate sha256) := by
  unfold UtcStatement.validate
  infer_instance

/-! ## Phases -/

inductive Phase where
  | prepared
  | publicationPermitted
  | complete
deriving DecidableEq, Repr

/-- A phase guard excludes completed transactions. -/
theorem Phase.ne_complete {p q : Phase} (h : (p != q) = false) (hq : q ≠ .complete) :
    p ≠ .complete := by
  rw [bne_eq_false_iff_eq] at h
  exact h ▸ hq

/-! ## Credential transitions -/

inductive TransitionKind where
  | password
  | activation (day : Nat) (utc : UtcStatement)
  | adminRecovery (day : Nat) (utc : UtcStatement)
  | renewal (day : Nat) (utc : UtcStatement)
deriving DecidableEq, Repr

/-- `account_transition::Intent`. -/
structure TransitionIntent where
  kind : Option TransitionKind
  transaction : String
  installation : String
  principal : String
  expectedGeneration : UInt64
  locked : Bool
  passwdSha256 : String
  shadowBeforeSha256 : String
  shadowAfterSha256 : String
  credentialBefore : String
  credentialAfter : String
deriving DecidableEq, Repr

namespace TransitionIntent

/-- `matches!(intent.kind, Some(Kind::Activation { .. }))`. -/
def activation (i : TransitionIntent) : Bool :=
  match i.kind with
  | some (.activation ..) => true
  | _ => false

/-- `matches!(intent.kind, Some(Kind::AdminRecovery { .. }))`. -/
def adminRecovery (i : TransitionIntent) : Bool :=
  match i.kind with
  | some (.adminRecovery ..) => true
  | _ => false

/-- `matches!(intent.kind, Some(Kind::Password | Kind::Renewal { .. }))`. -/
def passwordChange (i : TransitionIntent) : Bool :=
  match i.kind with
  | some .password => true
  | some (.renewal ..) => true
  | _ => false

/-- The UTC day of the kinds that carry one. -/
def dated (i : TransitionIntent) : Option (Nat × UtcStatement) :=
  match i.kind with
  | some (.activation day utc) => some (day, utc)
  | some (.adminRecovery day utc) => some (day, utc)
  | some (.renewal day utc) => some (day, utc)
  | _ => none

/-- The dated kinds publish an unlocked credential on the protected day. `/` on `i64` truncates
toward zero. -/
def datedValid (sha256 : Bytes → Vector UInt8 32) (i : TransitionIntent) : Result Unit :=
  match i.dated with
  | none => .ok ()
  | some (day, utc) => do
    utc.validate sha256
    refuseIf (i.locked || day == 0 || (day : Int) != utc.floorMs.tdiv 86400000)
      "activation requires the protected UTC day and unlocked publication"

instance noPanic_datedValid (sha256 : Bytes → Vector UInt8 32) (i : TransitionIntent) :
    NoPanic (i.datedValid sha256) := by
  unfold datedValid
  split
  · infer_instance
  · infer_instance

/-- `Intent::validate`. -/
def validate (sha256 : Bytes → Vector UInt8 32) (i : TransitionIntent) : Result Unit := do
  i.datedValid sha256
  refuseIf (!identifier i.transaction || i.transaction == "admin-bootstrap-v1" ||
      i.expectedGeneration == 0 || i.expectedGeneration == u64Max ||
      i.installation == i.principal || i.shadowBeforeSha256 == i.shadowAfterSha256 ||
      i.credentialBefore == i.credentialAfter)
    "invalid account lock transition"
  [i.installation, i.principal, i.passwdSha256, i.shadowBeforeSha256, i.shadowAfterSha256,
      i.credentialBefore, i.credentialAfter].forM fun value => do
    let empty ← emptyDigest 32 value
    refuseIf empty "empty account transition commitment"

instance noPanic_validate (sha256 : Bytes → Vector UInt8 32) (i : TransitionIntent) :
    NoPanic (i.validate sha256) := by
  unfold validate
  infer_instance

/-- A validated intent leaves room for the next generation. -/
theorem bounded {sha256 : Bytes → Vector UInt8 32} {i : TransitionIntent}
    (h : i.validate sha256 = .ok ()) : i.expectedGeneration ≠ u64Max := by
  simp only [validate, bind_eq_ok, refuseIf_eq_ok, Bool.or_eq_false_iff,
    beq_eq_false_iff_ne] at h
  obtain ⟨_, -, _, ⟨⟨⟨⟨-, hmax⟩, -⟩, -⟩, -⟩, -⟩ := h
  exact hmax

theorem activation_of_adminRecovery {i : TransitionIntent}
    (h : i.adminRecovery = true) : i.activation = false := by
  unfold adminRecovery at h
  unfold activation
  split at h
  · rename_i hk
    rw [hk]
  · exact Bool.noConfusion h

end TransitionIntent

/-- `account_transition::Transition`. -/
structure Transition where
  intent : TransitionIntent
  phase : Phase
deriving DecidableEq, Repr

/-! ## Creations and deletions -/

/-- `account_deletion::Change`. -/
structure Change where
  before : String
  after : String
  mode : Nat
  gid : Nat
deriving DecidableEq, Repr

/-- `account_creation::Intent`. -/
structure CreationIntent where
  transaction : String
  principal : Principal
  registryBefore : Registry
  registryAfter : Registry
  homeNonce : String
  credentialAfter : String
  files : Table Change
deriving DecidableEq

/-- `account_creation::FILES` and `account_deletion::FILES`, in set order. -/
def creationFiles : List String := ["group", "gshadow", "passwd", "registry", "shadow"]
def deletionFiles : List String := ["group", "gshadow", "passwd", "shadow"]

/-- `matches!(change.mode, 0o600 | 0o640 | 0o644)`. -/
def Change.modeAllowed (c : Change) : Bool := c.mode == 0o600 || c.mode == 0o640 || c.mode == 0o644

/-- `name.ends_with("shadow")`. -/
def endsWithShadow (name : String) : Bool := "shadow".toList.isSuffixOf name.toList

/-- One file of a creation. -/
def CreationIntent.fileStep (e : String × Change) : Result Unit := do
  let message := "invalid account creation file manifest"
  let before ← emptyDigest 32 e.2.before
  refuseIf before message
  let after ← emptyDigest 32 e.2.after
  refuseIf (after || e.2.before == e.2.after || !e.2.modeAllowed ||
    (endsWithShadow e.1 && e.2.mode == 0o644) ||
    (e.1 == "registry" && (e.2.mode != 0o600 || e.2.gid != 0))) message

/-- `account_creation::Intent::validate`. -/
def CreationIntent.validate (i : CreationIntent) : Result Unit := do
  let message := "invalid account creation intent"
  refuseIf (!identifier i.transaction || i.transaction == "admin-bootstrap-v1" ||
    !(1000 ≤ i.principal.uid && i.principal.uid < 60000)) message
  let after ← i.registryBefore.appendAccount i.principal
  refuseIf (after != i.registryAfter || i.files.keys != creationFiles) message
  let nonce ← emptyDigest 32 i.homeNonce
  refuseIf nonce message
  let credential ← emptyDigest 32 i.credentialAfter
  refuseIf credential message
  i.files.toList.forM CreationIntent.fileStep

instance CreationIntent.noPanic_fileStep (e : String × Change) :
    NoPanic (CreationIntent.fileStep e) := by
  unfold CreationIntent.fileStep
  infer_instance

instance CreationIntent.noPanic_validate (i : CreationIntent) : NoPanic i.validate := by
  unfold CreationIntent.validate
  infer_instance

theorem CreationIntent.appended {i : CreationIntent} (h : i.validate = .ok ()) :
    i.registryBefore.appendAccount i.principal = .ok i.registryAfter := by
  simp only [validate, bind_eq_ok, refuseIf_eq_ok, Bool.or_eq_false_iff,
    bne_eq_false_iff_eq] at h
  obtain ⟨_, -, after, happend, _, ⟨rfl, -⟩, -⟩ := h
  exact happend

/-- `account_creation::Transition`. -/
structure Creation where
  intent : CreationIntent
  phase : Phase
deriving DecidableEq

/-- `account_deletion::Intent`. -/
structure DeletionIntent where
  transaction : String
  installation : String
  principal : String
  expectedGeneration : UInt64
  credentialBefore : String
  files : Table Change
deriving DecidableEq

/-- One file of a deletion. -/
def DeletionIntent.fileStep (e : String × Change) : Result Unit := do
  let message := "invalid deletion file commitment or permissions"
  refuseIf (!e.2.modeAllowed || (endsWithShadow e.1 && e.2.mode == 0o644)) message
  let before ← emptyDigest 32 e.2.before
  refuseIf before message
  let after ← emptyDigest 32 e.2.after
  refuseIf (after || e.2.before == e.2.after) message

/-- `account_deletion::Intent::validate`. -/
def DeletionIntent.validate (i : DeletionIntent) : Result Unit := do
  refuseIf (!identifier i.transaction || i.transaction == "admin-bootstrap-v1" ||
      i.expectedGeneration == 0 || i.expectedGeneration == u64Max ||
      i.installation == i.principal || i.files.keys != deletionFiles)
    "invalid account deletion intent"
  [i.installation, i.principal, i.credentialBefore].forM fun value => do
    let empty ← emptyDigest 32 value
    refuseIf empty "empty deletion identity or credential commitment"
  i.files.toList.forM DeletionIntent.fileStep

instance DeletionIntent.noPanic_validate (i : DeletionIntent) : NoPanic i.validate := by
  unfold DeletionIntent.validate DeletionIntent.fileStep
  infer_instance

theorem DeletionIntent.bounded {i : DeletionIntent} (h : i.validate = .ok ()) :
    i.expectedGeneration ≠ u64Max := by
  simp only [validate, bind_eq_ok, refuseIf_eq_ok, Bool.or_eq_false_iff,
    beq_eq_false_iff_ne] at h
  obtain ⟨_, ⟨⟨⟨-, hmax⟩, -⟩, -⟩, -⟩ := h
  exact hmax

/-- `account_deletion::Transition`. -/
structure Deletion where
  intent : DeletionIntent
  phase : Phase
deriving DecidableEq

end LumaOS.Governance
