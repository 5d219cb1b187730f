import LumaOS.Utc.Keeper

/-!
# Policy decisions as evidence

Model of `policy_decisions.rs:29-447`: what one evaluation of the finite policy leaves behind, the
grant, role and time it was decided on, and `Decision::validate`, which checks that the record is
consistent with itself. A decision on file is an explanation and never a permission.

The approved UTC policy is compiled in; as for the keeper, what parsing it gave is an argument.
-/

namespace LumaOS.Policy

open LumaOS.Base LumaOS.Text LumaOS.Json LumaOS.Governance
open LumaOS.Utc (ApprovedPolicy)

/-- `policy_decisions::Reason`. -/
inductive Reason where
  | allowed
  | authenticationUnavailable
  | principalUnavailable
  | catalogUnavailable
  | utcUnavailable
  | credentialsExpired
  | grantMissing
  | grantRevoked
  | subjectMismatch
  | targetMismatch
  | constraintExceeded
  | outsideValidity
  | assignmentUnavailable
  | assignmentRevoked
  | roleSuperseded
  | grantDenied
  | authorityChanged
deriving DecidableEq

/-- `policy_decisions::DecisionOutcome`. -/
inductive DecisionOutcome where
  | allow
  | deny
deriving DecidableEq

/-- `policy_decisions::OperationOutcome`. -/
inductive OperationOutcome where
  | completed
  | denied
  | uncertain
deriving DecidableEq

/-- `policy_decisions::EffectKind`. -/
inductive EffectKind where
  | snapshot
  | calculation
  | generatedExecution
  | checkpoint
  | artifactPublication
  | artifactExport
  | retention
  | deletion
  | workerAdmission
  | resourceAdmission
  | modelQa
  | inference
  | recovery
deriving DecidableEq

/-- `policy_decisions::id`: 32 lowercase hexadecimal digits. -/
def isId (value : String) : Bool := value.utf8ByteSize == 32 && value.toList.all lowerHex

/-- `policy_decisions::effect_name`. -/
def effectName (value : String) : Bool :=
  !value.isEmpty && value.utf8ByteSize ≤ 128 &&
    value.toList.all fun c => c.isAlphanum || c == '-' || c == '_' || c == '.'

/-! ## Time -/

/-- `utc_history::Statement`. -/
structure Statement where
  floorMs : Int
  policySha256 : String
  bootId : String
  processGeneration : UInt64
  sourceClockGeneration : UInt64
  keeperGeneration : UInt64
  runtimeSha256 : String
deriving DecidableEq

/-- `Statement::validate`; a condition that already holds hides the failures of those after it. -/
def Statement.validate (fixed : Result ApprovedPolicy) (s : Statement) : Result Unit := do
  let refused : Result Unit := refuse "invalid UTC history statement"
  if s.floorMs ≤ 0 ∨ s.floorMs > 4102444800000 then refused else
  let policy ← decode 32 s.policySha256
  let approved ← fixed
  if policy ≠ approved.digest.toList then refused else
  let noBoot ← emptyDigest 16 s.bootId
  if noBoot then refused else
  let noRuntime ← emptyDigest 32 s.runtimeSha256
  refuseIf (noRuntime || s.processGeneration == 0 || s.sourceClockGeneration == 0 ||
      s.keeperGeneration == 0)
    "invalid UTC history statement"

/-- `policy_decisions::Timestamp`. -/
structure Timestamp where
  context : Statement
  lowerMs : Int
  upperMs : Int
deriving DecidableEq

/-- `Timestamp::validate`. -/
def Timestamp.validate (fixed : Result ApprovedPolicy) (t : Timestamp) : Result Unit := do
  t.context.validate fixed
  refuseIf (t.lowerMs != t.context.floorMs || t.upperMs < t.lowerMs || t.upperMs - t.lowerMs > 500 ||
      t.upperMs > 4102444800000)
    "invalid inert policy timestamp evidence"

/-! ## Grants -/

/-- `policy_decisions::Subject`. -/
structure Subject where
  principal : String
  generation : UInt64
deriving DecidableEq

/-- `policy_decisions::RoleEvidence`. -/
structure RoleEvidence where
  name : String
  version : UInt64
  activities : List String
deriving DecidableEq

/-- `policy_decisions::GrantEvidence`. -/
structure GrantEvidence where
  definition : Grant
  assignment : Option Assignment
  currentRole : Option RoleEvidence
  grantId : String
  grantVersion : UInt64
  revoked : Bool
  assignmentId : String
  assignmentVersion : UInt64
  role : String
  roleVersion : UInt64
  notBeforeMs : Int
  expiresMs : Int
  constraints : Constraints
deriving DecidableEq

/-- The assignment on file is the one the grant names, or none was found. -/
def GrantEvidence.assignmentAgrees (g : GrantEvidence) : Bool :=
  match g.assignment with
  | some assignment => assignment.id == g.assignmentId && assignment.role == g.role &&
      assignment.roleVersion == g.roleVersion
  | none => g.role.isEmpty && g.roleVersion == 0 && g.currentRole.isNone

/-- The checks of `Decision::validate` on the grant it was decided on. -/
def GrantEvidence.validate (g : GrantEvidence) (grantId : String) : Result Unit := do
  g.definition.selector.validate
  g.constraints.validate g.definition.selector g.definition.action
  refuseIf (g.grantId != grantId || !identifier g.assignmentId || g.grantVersion == 0 ||
      g.assignmentVersion == 0 || g.notBeforeMs ≤ 0 || g.expiresMs ≤ g.notBeforeMs ||
      (!g.role.isEmpty && !identifier g.role))
    "invalid policy grant evidence"
  refuseIf (g.definition.id != g.grantId || g.definition.version != g.grantVersion ||
      g.definition.constraints != g.constraints || g.definition.assignment != g.assignmentId ||
      g.definition.assignmentVersion != g.assignmentVersion || g.definition.revoked != g.revoked ||
      g.definition.notBeforeMs != g.notBeforeMs || g.definition.expiresMs != g.expiresMs)
    "policy grant definition disagrees with evaluated evidence"
  refuseIf (!g.assignmentAgrees) "policy assignment evidence disagrees with current catalog"
  refuseIf (g.currentRole.any fun role => role.name != g.role || role.version == 0 ||
      role.activities.isEmpty || role.activities.length > 256 ||
      role.activities.any fun v => !identifier v)
    "invalid evaluated current role evidence"

/-! ## Decisions -/

/-- `policy_decisions::Decision`. -/
structure Decision where
  decisionId : String
  policyVersion : UInt32
  policySha256 : String
  subject : Option Subject
  checkpointHead : Option String
  catalogSha256 : Option String
  grantId : String
  grant : Option GrantEvidence
  capability : Action
  normalizedResource : Selector
  evaluatedConstraints : Use
  outcome : DecisionOutcome
  reasonCode : Reason
  timestamp : Option Timestamp
deriving DecidableEq

/-- The last check of `Decision::validate`: the evidence of an allowance supports it. -/
def Decision.checkAllowed (d : Decision) : Result Unit := do
  let grant ← okOr d.grant "missing allowed grant evidence"
  let assignment ← okOr grant.assignment "missing allowed assignment evidence"
  let role ← okOr grant.currentRole "missing allowed role evidence"
  let subject ← okOr d.subject "missing allowed subject evidence"
  let time ← okOr d.timestamp "missing allowed UTC evidence"
  refuseIf (grant.revoked || assignment.revoked || assignment.version != grant.assignmentVersion ||
      assignment.roleVersion != role.version || grant.definition.subject != subject.principal ||
      grant.definition.subjectGeneration != subject.generation ||
      assignment.subject != subject.principal ||
      assignment.subjectGeneration != subject.generation ||
      grant.definition.action != d.capability || grant.definition.selector != d.normalizedResource ||
      !(role.activities.any fun v => v == d.capability.activity) ||
      time.lowerMs < grant.notBeforeMs || time.upperMs ≥ grant.expiresMs ||
      time.lowerMs < assignment.notBeforeMs || time.upperMs ≥ assignment.expiresMs ||
      d.evaluatedConstraints.inputBytes > grant.constraints.maxInputBytes ||
      d.evaluatedConstraints.outputBytes > grant.constraints.maxOutputBytes ||
      d.evaluatedConstraints.units > grant.constraints.maxUnits)
    "allowed policy evidence contradicts evaluated authorization"

/-- `Decision::validate`. -/
def Decision.validate (fixed : Result ApprovedPolicy) (d : Decision) : Result Unit := do
  d.evaluatedConstraints.validate
  refuseIf (!isId d.decisionId || d.policyVersion != 1 || !isHash d.policySha256 ||
      !identifier d.grantId || d.capability != d.evaluatedConstraints.action ||
      d.normalizedResource != d.evaluatedConstraints.selector ||
      (d.outcome == .allow) != (d.reasonCode == .allowed))
    "invalid closed policy decision evidence"
  d.subject.toList.forM fun subject => do
    let empty ← emptyDigest 32 subject.principal
    refuseIf (empty || subject.generation == 0) "invalid policy subject evidence"
  (d.checkpointHead.toList ++ d.catalogSha256.toList).forM fun value =>
    refuseIf (!isHash value) "invalid policy authority digest evidence"
  d.timestamp.toList.forM (Timestamp.validate fixed)
  d.grant.toList.forM fun grant => grant.validate d.grantId
  refuseIf (d.outcome == .allow && (d.subject.isNone || d.timestamp.isNone ||
      d.checkpointHead.isNone || d.catalogSha256.isNone || d.grant.isNone))
    "allowed policy decision lacks actual evidence"
  if d.outcome = .allow then d.checkAllowed else pure ()

/-! ## Serialisation -/

def Reason.toJson : Reason → Value
  | .allowed => .string "allowed"
  | .authenticationUnavailable => .string "authentication_unavailable"
  | .principalUnavailable => .string "principal_unavailable"
  | .catalogUnavailable => .string "catalog_unavailable"
  | .utcUnavailable => .string "utc_unavailable"
  | .credentialsExpired => .string "credentials_expired"
  | .grantMissing => .string "grant_missing"
  | .grantRevoked => .string "grant_revoked"
  | .subjectMismatch => .string "subject_mismatch"
  | .targetMismatch => .string "target_mismatch"
  | .constraintExceeded => .string "constraint_exceeded"
  | .outsideValidity => .string "outside_validity"
  | .assignmentUnavailable => .string "assignment_unavailable"
  | .assignmentRevoked => .string "assignment_revoked"
  | .roleSuperseded => .string "role_superseded"
  | .grantDenied => .string "grant_denied"
  | .authorityChanged => .string "authority_changed"

def DecisionOutcome.toJson : DecisionOutcome → Value
  | .allow => .string "allow"
  | .deny => .string "deny"

def OperationOutcome.toJson : OperationOutcome → Value
  | .completed => .string "completed"
  | .denied => .string "denied"
  | .uncertain => .string "uncertain"

def EffectKind.toJson : EffectKind → Value
  | .snapshot => .string "snapshot"
  | .calculation => .string "calculation"
  | .generatedExecution => .string "generated_execution"
  | .checkpoint => .string "checkpoint"
  | .artifactPublication => .string "artifact_publication"
  | .artifactExport => .string "artifact_export"
  | .retention => .string "retention"
  | .deletion => .string "deletion"
  | .workerAdmission => .string "worker_admission"
  | .resourceAdmission => .string "resource_admission"
  | .modelQa => .string "model_qa"
  | .inference => .string "inference"
  | .recovery => .string "recovery"

def Statement.toJson (s : Statement) : Value :=
  .object [("floor_ms", .number s.floorMs), ("policy_sha256", .string s.policySha256),
    ("boot_id", .string s.bootId), ("process_generation", u64Json s.processGeneration),
    ("source_clock_generation", u64Json s.sourceClockGeneration),
    ("keeper_generation", u64Json s.keeperGeneration), ("runtime_sha256", .string s.runtimeSha256)]

def Timestamp.toJson (t : Timestamp) : Value :=
  .object [("context", t.context.toJson), ("lower_ms", .number t.lowerMs),
    ("upper_ms", .number t.upperMs)]

def Subject.toJson (s : Subject) : Value :=
  .object [("principal", .string s.principal), ("generation", u64Json s.generation)]

def RoleEvidence.toJson (r : RoleEvidence) : Value :=
  .object [("name", .string r.name), ("version", u64Json r.version),
    ("activities", .array (r.activities.map .string))]

def GrantEvidence.toJson (g : GrantEvidence) : Value :=
  .object [("definition", g.definition.toJson), ("assignment", optional Assignment.toJson g.assignment),
    ("current_role", optional RoleEvidence.toJson g.currentRole), ("grant_id", .string g.grantId),
    ("grant_version", u64Json g.grantVersion), ("revoked", .bool g.revoked),
    ("assignment_id", .string g.assignmentId), ("assignment_version", u64Json g.assignmentVersion),
    ("role", .string g.role), ("role_version", u64Json g.roleVersion),
    ("not_before_ms", .number g.notBeforeMs), ("expires_ms", .number g.expiresMs),
    ("constraints", g.constraints.toJson)]

def Decision.toJson (d : Decision) : Value :=
  .object [("decision_id", .string d.decisionId), ("policy_version", u32Json d.policyVersion),
    ("policy_sha256", .string d.policySha256), ("subject", optional Subject.toJson d.subject),
    ("checkpoint_head", optional .string d.checkpointHead),
    ("catalog_sha256", optional .string d.catalogSha256), ("grant_id", .string d.grantId),
    ("grant", optional GrantEvidence.toJson d.grant), ("capability", d.capability.toJson),
    ("normalized_resource", d.normalizedResource.toJson),
    ("evaluated_constraints", d.evaluatedConstraints.toJson), ("outcome", d.outcome.toJson),
    ("reason_code", d.reasonCode.toJson), ("timestamp", optional Timestamp.toJson d.timestamp)]

end LumaOS.Policy
