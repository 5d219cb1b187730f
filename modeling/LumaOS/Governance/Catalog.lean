import LumaOS.Governance.Accounts
import LumaOS.Governance.ModelTrust
import LumaOS.Governance.SkillTrust

/-!
# The governance catalog

Model of `admin_roles.rs:25-130, 217-536, 1232-1243`: the commands, what each has to satisfy before
the catalog is looked at (`Command.validate`), the catalog with its derived views, and the questions
that finite grants and model custody ask of it (`finite_grants.rs:206-348`,
`model_trust.rs:2389-2438`). `Catalog::apply` is in `LumaOS.Governance.Apply`.
-/

namespace LumaOS.Governance

open LumaOS.Base LumaOS.Text LumaOS.Json

/-! ## Commands -/

inductive Command where
  | publishModelTrust (expectedSequence : UInt64) (bundle : ModelTrust)
  | admitModelCatalog (expectedFloor : UInt64) (admission : ModelAdmission)
  | recordModelCatalogApproval (request : ReleaseRequest) (approval : Approval)
  | recordModelCatalogSigning (statement : ModelStatement)
  | publishSkillTrust (expectedVersion : UInt64) (bundle : SkillTrust)
  | admitSkillRegistry (expectedFloor : UInt64) (admission : SkillAdmission)
  | publishReleaseTrust (expectedVersion : UInt64) (bundle : ReleaseTrust)
  | prepareRelease (expectedFloor : UInt64) (admission : ReleaseAdmission)
  | initializeRelease (release : SignedRelease)
  | resolveRelease (candidateSha256 : String) (outcome : Outcome)
  | registerActivity (activity : String)
  | defineRole (name : String) (activities : List String) (expectedVersion : UInt64)
  | assignRole (assignment : Assignment)
  | revokeAssignment (assignment : String) (expectedVersion : UInt64)
  | issueGrant (grant : Grant)
  | revokeGrant (grant : String) (expectedVersion : UInt64)
  | adoptPrincipals (registry : Registry)
  | checkpointAccounts (commitments : Table String)
  | prepareAccountLock (intent : TransitionIntent)
  | prepareAccountDeletion (intent : DeletionIntent)
  | prepareAccountCreation (intent : CreationIntent)
  | permitAccountCreation (transaction : String)
  | completeAccountCreation (transaction : String)
  | permitAccountDeletion (transaction : String)
  | completeAccountDeletion (transaction : String)
  | permitAccountPublication (transaction : String)
  | completeAccountLock (transaction : String)
  | advancePrincipal (principal : String) (expectedGeneration : UInt64) (enabled : Bool)
  | rotateAdmin (expectedGeneration : UInt64)
  | recoverAdmin (expectedGeneration expectedRecoveryGeneration : UInt64) (replacement : Verifier)
  | prepareAdminAccountRecovery (intent : TransitionIntent) (expectedCredential : String)
      (expectedRecoveryGeneration : UInt64) (replacement : Verifier)
  | permitAdminAccountRecovery (transaction : String)
  | completeAdminAccountRecovery (transaction : String)

namespace Command

/-- `identifier(v) && v != "admin.bootstrap"`. -/
def validActivity (v : String) : Bool := identifier v && v != "admin.bootstrap"

/-- The identifier checks of the commands that name a transaction; creations have their own
message. -/
def transactionValid (message transaction : String) : Result Unit :=
  refuseIf (!identifier transaction || transaction == "admin-bootstrap-v1") message

def revocationValid (id : String) (expectedVersion : UInt64) : Result Unit :=
  refuseIf (!identifier id || expectedVersion == 0)
    "revocation requires an exact assignment/grant ID and version"

/-- One commitment of an account checkpoint. -/
def commitmentStep (e : String × String) : Result Unit := do
  let _ ← decode 32 e.1
  let _ ← decode 32 e.2
  refuseIf (e.2 == repeatText "00" 32) "empty credential commitment"

def invalidTransition : String := "invalid account transition identifier"
def invalidCreation : String := "invalid account creation identifier"
def invalidCommand : String :=
  "invalid finite Admin catalog command; no wildcards or root delegation"

/-- `Command::validate`. -/
def validate (f : ModelFormats) : Command → Result Unit
  | publishModelTrust expectedSequence bundle => do
    refuseIf (expectedSequence.toNat ≥ safeInteger) "model trust sequence exhausted"
    bundle.validate
  | admitModelCatalog expectedFloor admission => do
    refuseIf (expectedFloor.toNat > safeInteger) "model catalog floor exhausted"
    admission.validate f
  | recordModelCatalogApproval request approval => approval.checkRequest f.sha256 request
  | recordModelCatalogSigning statement => statement.validate f.sha256
  | publishSkillTrust expectedVersion bundle => do
    refuseIf (expectedVersion ≥ i64Max) "skill trust version exhausted"
    bundle.validate f.sha256
  | admitSkillRegistry expectedFloor admission => do
    refuseIf (expectedFloor > i64Max) "skill registry floor exhausted"
    admission.validate
  | publishReleaseTrust expectedVersion bundle => do
    refuseIf (expectedVersion ≥ i64Max) "release trust version exhausted"
    bundle.validate f.sha256
  | prepareRelease expectedFloor admission => do
    refuseIf (expectedFloor ≥ i64Max) "release admission floor exhausted"
    admission.prior.validate
    admission.candidate.validate f.toFormats
    let _ ← decode 32 admission.trustSha256
    pure ()
  | initializeRelease release => release.validate f.toFormats
  | resolveRelease candidateSha256 _ => do
    let _ ← decode 32 candidateSha256
    pure ()
  | assignRole assignment => assignment.validate
  | issueGrant grant => grant.validate
  | revokeAssignment assignment expectedVersion => revocationValid assignment expectedVersion
  | revokeGrant grant expectedVersion => revocationValid grant expectedVersion
  | prepareAccountLock intent => intent.validate f.sha256
  | prepareAdminAccountRecovery intent expectedCredential expectedRecoveryGeneration _ => do
    intent.validate f.sha256
    let empty ← emptyDigest 32 expectedCredential
    refuseIf empty "missing prior Admin credential authority"
    refuseIf (expectedRecoveryGeneration == 0 || !intent.adminRecovery)
      "Admin account recovery requires offline custody and an exact OS transition"
  | prepareAccountDeletion intent => intent.validate
  | prepareAccountCreation intent => intent.validate
  | permitAccountPublication transaction => transactionValid invalidTransition transaction
  | permitAdminAccountRecovery transaction => transactionValid invalidTransition transaction
  | completeAdminAccountRecovery transaction => transactionValid invalidTransition transaction
  | completeAccountLock transaction => transactionValid invalidTransition transaction
  | permitAccountDeletion transaction => transactionValid invalidTransition transaction
  | completeAccountDeletion transaction => transactionValid invalidTransition transaction
  | permitAccountCreation transaction => transactionValid invalidCreation transaction
  | completeAccountCreation transaction => transactionValid invalidCreation transaction
  | checkpointAccounts commitments => do
    refuseIf (commitments.isEmpty || commitments.size > 128)
      "account checkpoint requires a finite complete inventory"
    commitments.toList.forM commitmentStep
  | recoverAdmin expectedGeneration expectedRecoveryGeneration _ =>
    refuseIf (expectedGeneration == 0 || expectedRecoveryGeneration == 0)
      "recovery requires nonzero principal and credential generations"
  | adoptPrincipals registry => registry.validate
  | rotateAdmin expectedGeneration =>
    refuseIf (expectedGeneration == 0) "Admin generation must be nonzero"
  | advancePrincipal principal expectedGeneration _ => do
    let _ ← decode 32 principal
    refuseIf (expectedGeneration == 0) "principal generation must be nonzero"
  | registerActivity activity => refuseIf (!validActivity activity) invalidCommand
  | defineRole name activities _ =>
    refuseIf (!(identifier name && name != "Admin" && !activities.isEmpty &&
        activities.length ≤ 64 && activities.all validActivity && ascending activities))
      invalidCommand

instance noPanic_validate (f : ModelFormats) (command : Command) :
    NoPanic (command.validate f) := by
  unfold validate transactionValid revocationValid commitmentStep
  cases command <;> infer_instance

end Command

/-! ## The catalog -/

structure Role where
  name : String
  activities : List String
  version : UInt64
deriving DecidableEq, Repr

structure PrincipalState where
  generation : UInt64
  enabled : Bool
deriving DecidableEq, Repr

structure Catalog where
  modelTrust : Option ModelState
  assignmentReceipts : Table String
  modelApprovals : Table Approval
  modelSignings : Table ModelStatement
  skillTrust : Option SkillState
  release : Option ReleaseState
  stateVersion : UInt64
  activities : Names
  roles : Table Role
  assignments : Table Assignment
  grants : Table Grant
  principalRegistry : Option Registry
  currentRegistry : Option Registry
  accountCreations : Table Creation
  needsPasswordAging : Names
  principalStates : Table PrincipalState
  accountCommitments : Table String
  accountTransitions : Table Transition
  accountDeletions : Table Deletion
  deletedPrincipals : Names
  adminRecovery : Option Verifier

/-- `CONTROL`. -/
def control : List String :=
  ["admin.activity.register", "admin.role.define", "admin.role.assign", "admin.role.revoke"]

namespace Catalog

/-- `Catalog::initial`. -/
def initial : Catalog where
  modelTrust := none
  assignmentReceipts := ∅
  modelApprovals := ∅
  modelSignings := ∅
  skillTrust := none
  release := none
  stateVersion := 1
  activities := Std.ExtTreeSet.ofList control
  roles := ∅
  assignments := ∅
  grants := ∅
  principalRegistry := none
  currentRegistry := none
  accountCreations := ∅
  needsPasswordAging := ∅
  principalStates := ∅
  accountCommitments := ∅
  accountTransitions := ∅
  accountDeletions := ∅
  deletedPrincipals := ∅
  adminRecovery := none

/-- `Catalog::registry`, as the option before its error. -/
def installed (c : Catalog) : Option Registry := c.currentRegistry <|> c.principalRegistry

def adoptionRequired : String := "explicit principal adoption required"

/-- `Catalog::registry`. -/
def registry (c : Catalog) : Result Registry := okOr c.installed adoptionRequired

/-- `state.map_or(record.generation, |v| v.generation)`: the state entry, else the record. -/
def generationOf (c : Catalog) (principal : String) (record : Principal) : UInt64 :=
  (c.principalStates[principal]?.map fun s => s.generation).getD record.generation

/-- `state.is_some_and(|v| !v.enabled)`. -/
def disabled (c : Catalog) (principal : String) : Bool :=
  c.principalStates[principal]?.any fun s => !s.enabled

/-- `Catalog::creation_pending` and its two inline counterparts. -/
def creationPending (c : Catalog) : Bool :=
  c.accountCreations.toList.any fun e => e.2.phase != .complete

def deletionPending (c : Catalog) : Bool :=
  c.accountDeletions.toList.any fun e => e.2.phase != .complete

def transitionPending (c : Catalog) : Bool :=
  c.accountTransitions.toList.any fun e => e.2.phase != .complete

/-- `Catalog::transaction_capacity`. -/
def transactionCapacity (c : Catalog) : Nat :=
  c.accountCreations.size + c.accountDeletions.size + c.accountTransitions.size

/-- `Catalog::recovery_verifier`. -/
def recoveryVerifier (c : Catalog) : Result Verifier := do
  let registry ← okOr c.principalRegistry adoptionRequired
  okOr (c.adminRecovery <|> registry.adminRecovery)
    ("no installer-enrolled offline Admin recovery credential; no root or TPM-owner " ++
      "fallback")

/-- `a.max_by_key(|(generation, _)| *generation)`: the last of the largest. -/
def latest (acc : Option (UInt64 × Nat)) (e : UInt64 × Nat) : Option (UInt64 × Nat) :=
  match acc with
  | none => some e
  | some best => if best.1 ≤ e.1 then some e else some best

/-- `Catalog::password_day`. -/
def passwordDay (c : Catalog) (principal : String) : Option Nat :=
  let dated := c.accountTransitions.toList.filterMap fun e =>
    if e.2.intent.principal == principal && e.2.phase == .complete then
      e.2.intent.dated.map fun d => (e.2.intent.expectedGeneration, d.1)
    else none
  (dated.foldl latest none).map Prod.snd

/-! ## Questions to the catalog -/

/-- The part of a subject check that assignments, grants and model custody share: enabled, of the
given generation, checkpointed, neither deleted nor awaiting activation. -/
def subjectCurrent (c : Catalog) (record : Principal) (principal : String)
    (generation : UInt64) : Bool :=
  record.enabled && !c.disabled principal && c.generationOf principal record == generation &&
    !c.deletedPrincipals.contains principal && !c.needsPasswordAging.contains principal &&
    c.accountCommitments.contains principal

/-- `finite_grants::subject`. -/
def subject (c : Catalog) (principal : String) (generation : UInt64) : Result Unit := do
  let registry ← c.registry
  let record ← okOr (registry.principal principal) "unknown grant subject"
  refuseIf (!c.subjectCurrent record principal generation)
    "grant subject is disabled, stale, uncheckpointed or awaiting activation"

instance noPanic_registry (c : Catalog) : NoPanic c.registry := noPanic_okOr _ _

instance noPanic_recoveryVerifier (c : Catalog) : NoPanic c.recoveryVerifier := by
  unfold recoveryVerifier
  infer_instance

instance noPanic_subject (c : Catalog) (principal : String) (generation : UInt64) :
    NoPanic (c.subject principal generation) := by
  unfold subject
  infer_instance

/-- `model_trust::check_custodian`. -/
def checkCustodian (c : Catalog) (principal assignment receipt activity : String)
    (interval : Interval) : Result Unit := do
  let message := "model custody requires exact current finite principal/role/assignment and " ++
    "actual checkpointed receipt"
  let record ← okOr c.assignments[assignment]? "unknown model custodian assignment"
  let role ← okOr c.roles[record.role]? "unknown model custodian role"
  let registry ← c.registry
  let p ← okOr (registry.principal principal) "unknown model custodian principal"
  refuseIf (record.subject != principal || record.revoked || role.version != record.roleVersion ||
    !role.activities.contains activity ||
    !c.subjectCurrent p principal record.subjectGeneration ||
    c.assignmentReceipts[assignment]? != some receipt) message
  let inside ← interval.within record.notBeforeMs record.expiresMs
  refuseIf (!inside) message
  match c.passwordDay principal with
  | none => pure ()
  | some day => do
    let aged ← interval.within (day * 86400000) ((day + 90) * 86400000)
    refuseIf (!aged) "model custodian password aging is outside protected UTC"

instance noPanic_checkCustodian (c : Catalog) (principal assignment receipt activity : String)
    (interval : Interval) :
    NoPanic (c.checkCustodian principal assignment receipt activity interval) := by
  unfold checkCustodian
  cases c.passwordDay principal with
  | none | some day => infer_instance

end Catalog

/-- `Assignment::current`. -/
def Assignment.current (a : Assignment) (c : Catalog) (interval : Interval) : Result Unit := do
  let message := "role assignment revoked, superseded or outside full UTC interval"
  c.subject a.subject a.subjectGeneration
  let role ← okOr c.roles[a.role]? "assigned role no longer exists"
  refuseIf (c.assignments[a.id]? != some a || a.revoked || role.version != a.roleVersion) message
  let inside ← interval.within a.notBeforeMs a.expiresMs
  refuseIf (!inside) message

/-- `Grant::issue`. -/
def Grant.issue (g : Grant) (c : Catalog) : Result Unit := do
  g.validate
  c.subject g.subject g.subjectGeneration
  let assignment ← okOr c.assignments[g.assignment]? "grant requires checkpointed assignment"
  let role ← okOr c.roles[assignment.role]? "grant requires registered role"
  refuseIf (assignment.revoked || assignment.version != g.assignmentVersion ||
      assignment.subject != g.subject || assignment.subjectGeneration != g.subjectGeneration ||
      assignment.roleVersion != role.version || !role.activities.contains g.action.activity ||
      g.notBeforeMs < assignment.notBeforeMs || g.expiresMs > assignment.expiresMs)
    "grant cannot expand role, subject, version or assignment validity"

instance Grant.noPanic_issue (g : Grant) (c : Catalog) : NoPanic (g.issue c) := by
  unfold Grant.issue
  infer_instance

/-- `Grant::authorize`. -/
def Grant.authorize (g : Grant) (c : Catalog) (identity : Value) (interval : Interval)
    (usage : Use) : Result Unit := do
  let denied :=
    "finite grant denied exact subject, target, operation, constraints or UTC validity"
  usage.validate
  refuseIf (c.grants[g.id]? != some g || g.revoked ||
    (identity.get "principal").asStr != some g.subject ||
    (identity.get "generation").asU64 != some g.subjectGeneration || g.action != usage.action ||
    g.selector != usage.selector || usage.inputBytes > g.constraints.maxInputBytes ||
    usage.outputBytes > g.constraints.maxOutputBytes ||
    usage.units > g.constraints.maxUnits) denied
  let inside ← interval.within g.notBeforeMs g.expiresMs
  refuseIf (!inside) denied
  let assignment ← okOr c.assignments[g.assignment]? "grant assignment missing"
  assignment.current c interval
  let changed := "finite grant role or assignment changed"
  refuseIf (assignment.version != g.assignmentVersion || assignment.subject != g.subject ||
    assignment.subjectGeneration != g.subjectGeneration) changed
  let role ← okOr c.roles[assignment.role]? "grant role missing"
  refuseIf (!role.activities.contains g.action.activity) changed

end LumaOS.Governance
