import LumaOS.Governance.Catalog

/-!
# Applying a command to the catalog

Model of `Catalog::apply` (`admin_roles.rs:539-1211`): validate the command, reserve the next state
version, run the command's branch, and write the version unless the branch returned `Ok(false)`.

Every branch is its own definition, with its writes in the order of the source. Most read first and
write once; four of them do not. `PublishModelTrust` writes through `model_trust::publish` and then
compares; `PrepareAdminAccountRecovery` installs the replacement verifier and the commitment before
the generation increment; and completing a transition writes commitment and state before it takes
the principal out of the aging set. A plain `+` on generations panics when it overflows.
-/

namespace LumaOS.Governance

open LumaOS.Base LumaOS.Text

namespace Catalog

/-! ## Trust records -/

def onModelTrust (m : Mut (Option ModelState) Unit) : Mut Catalog Unit :=
  Mut.focus (fun c => c.modelTrust) (fun t c => { c with modelTrust := t }) m

def onSkillTrust (m : Mut (Option SkillState) Unit) : Mut Catalog Unit :=
  Mut.focus (fun c => c.skillTrust) (fun t c => { c with skillTrust := t }) m

def onRelease (m : Mut (Option ReleaseState) Unit) : Mut Catalog Unit :=
  Mut.focus (fun c => c.release) (fun t c => { c with release := t }) m

def publishModelTrust (f : ModelFormats) (expectedSequence : UInt64) (bundle : ModelTrust) :
    Mut Catalog Bool := do
  let before := (← get).modelTrust
  onModelTrust (ModelState.publish f expectedSequence bundle)
  pure ((← get).modelTrust != before)

def recordModelCatalogApproval (f : ModelFormats) (request : ReleaseRequest)
    (approval : Approval) : Mut Catalog Bool := do
  approval.checkRequest f.sha256 request
  let at_ ← timestamp approval.approvedAt
  let interval ← Interval.new at_ at_
  let c ← get
  c.checkCustodian approval.principalId approval.assignmentId approval.assignmentReceiptSha256
    approval.activity interval
  let receipt := approval.approvalDecisionReceiptSha256
  refuseIf (c.modelApprovals.size ≥ 1024 || c.modelApprovals.contains receipt)
    "model approval decision is duplicate or bounded history is full"
  set { c with modelApprovals := c.modelApprovals.insert receipt approval }
  pure true

def recordModelCatalogSigning (f : ModelFormats) (statement : ModelStatement) :
    Mut Catalog Bool := do
  statement.validate f.sha256
  let at_ ← timestamp statement.signedAt
  let interval ← Interval.new at_ at_
  let c ← get
  c.checkCustodian statement.signingPrincipalId statement.signingAssignmentId
    statement.signingAssignmentReceiptSha256 statement.signingActivity interval
  let digest ← statement.digest f.sha256
  refuseIf (c.modelSignings.size ≥ 1024 || c.modelSignings.contains digest)
    "model signing event is duplicate or bounded history is full"
  set { c with modelSignings := c.modelSignings.insert digest statement }
  pure true

/-! ## Roles, assignments and grants -/

def registerActivity (activity : String) : Mut Catalog Bool := do
  let c ← get
  if c.activities.contains activity then
    pure false
  else do
    refuseIf (c.activities.size ≥ 128) "Admin activity catalog capacity exhausted"
    set { c with activities := c.activities.insert activity }
    pure true

def defineRole (name : String) (activities : List String) (expectedVersion : UInt64) :
    Mut Catalog Bool := do
  let c ← get
  refuseIf (activities.any fun v => !c.activities.contains v) "role names an unregistered activity"
  let current := c.roles[name]?
  refuseIf ((current.map fun role => role.version).getD 0 != expectedVersion)
    "Admin role version conflict"
  if current.any fun role => role.activities == activities then
    pure false
  else do
    refuseIf (current.isNone && c.roles.size ≥ 128) "Admin role catalog capacity exhausted"
    let version ← okOr (u64Add expectedVersion 1) "Admin role version exhausted"
    set { c with roles := c.roles.insert name { name, activities, version } }
    pure true

def assignRole (assignment : Assignment) : Mut Catalog Bool := do
  let c ← get
  let role ← okOr c.roles[assignment.role]? "assignment requires defined role"
  let registry ← c.registry
  let principal ← okOr (registry.principal assignment.subject)
    "assignment requires adopted principal"
  refuseIf (role.version != assignment.roleVersion ||
      !c.subjectCurrent principal assignment.subject assignment.subjectGeneration ||
      c.assignments.contains assignment.id || c.assignments.size ≥ 512)
    "assignment subject, role/version or bounded history is unavailable"
  set { c with assignments := c.assignments.insert assignment.id assignment }
  pure true

def revokeAssignment (assignment : String) (expectedVersion : UInt64) : Mut Catalog Bool := do
  let c ← get
  let record ← okOr c.assignments[assignment]? "unknown assignment revocation"
  refuseIf (record.revoked || record.version != expectedVersion)
    "assignment revocation version conflict"
  let version ← okOr (u64Add record.version 1) "assignment version exhausted"
  set { c with assignments := c.assignments.insert assignment { record with
    version, revoked := true } }
  pure true

def issueGrant (grant : Grant) : Mut Catalog Bool := do
  let c ← get
  grant.issue c
  refuseIf (c.grants.contains grant.id || c.grants.size ≥ 1024)
    "grant identifier used or bounded grant history exhausted"
  set { c with grants := c.grants.insert grant.id grant }
  pure true

def revokeGrant (grant : String) (expectedVersion : UInt64) : Mut Catalog Bool := do
  let c ← get
  let record ← okOr c.grants[grant]? "unknown grant revocation"
  refuseIf (record.revoked || record.version != expectedVersion) "grant revocation version conflict"
  let version ← okOr (u64Add record.version 1) "grant version exhausted"
  set { c with grants := c.grants.insert grant { record with version, revoked := true } }
  pure true

/-! ## Account creations -/

def prepareAccountCreation (intent : CreationIntent) : Mut Catalog Bool := do
  let c ← get
  let registry ← c.registry
  refuseIf (registry != intent.registryBefore || c.accountCommitments.isEmpty ||
      c.principalStates.contains intent.principal.id ||
      c.accountCommitments.contains intent.principal.id ||
      c.accountCreations.contains intent.transaction ||
      c.accountDeletions.contains intent.transaction ||
      c.accountTransitions.contains intent.transaction || c.transactionCapacity ≥ 128 ||
      c.creationPending || c.deletionPending || c.transitionPending)
    "creation conflicts with checkpointed history or pending account publication"
  set { c with
    principalStates :=
      c.principalStates.insert intent.principal.id { generation := 1, enabled := false }
    accountCreations :=
      c.accountCreations.insert intent.transaction { intent, phase := .prepared } }
  pure true

def permitAccountCreation (transaction : String) : Mut Catalog Bool := do
  let c ← get
  let creation ← okOr c.accountCreations[transaction]? "no anchored creation"
  refuseIf (creation.phase != .prepared) "creation permission requires its exact prepared phase"
  set { c with accountCreations :=
    c.accountCreations.insert transaction { creation with phase := .publicationPermitted } }
  pure true

def completeAccountCreation (transaction : String) : Mut Catalog Bool := do
  let message := "creation completion requires its exact permitted fenced generation"
  let c ← get
  let creation ← okOr c.accountCreations[transaction]? "no anchored creation"
  refuseIf (creation.phase != .publicationPermitted) message
  let registry ← c.registry
  let id := creation.intent.principal.id
  refuseIf (registry != creation.intent.registryBefore ||
    c.principalStates[id]? != some { generation := 1, enabled := false }) message
  set { c with
    currentRegistry := some creation.intent.registryAfter
    accountCommitments := c.accountCommitments.insert id creation.intent.credentialAfter
    needsPasswordAging := c.needsPasswordAging.insert id
    accountCreations := c.accountCreations.insert transaction { creation with phase := .complete } }
  pure true

/-! ## Account deletions -/

def prepareAccountDeletion (intent : DeletionIntent) : Mut Catalog Bool := do
  let c ← get
  let registry ← c.registry
  let record ← okOr ((registry.principal intent.principal).filter fun r =>
    r.enabled && r.uid != 1001) "deletion cannot remove the original Admin"
  let generation := c.generationOf intent.principal record
  refuseIf (c.deletedPrincipals.contains intent.principal ||
      intent.installation != registry.installation || intent.expectedGeneration != generation ||
      c.accountCommitments[intent.principal]? != some intent.credentialBefore ||
      c.accountDeletions.contains intent.transaction ||
      c.accountTransitions.contains intent.transaction || c.transactionCapacity ≥ 128 ||
      c.creationPending || c.accountCreations.contains intent.transaction ||
      c.transitionPending || c.deletionPending)
    "deletion conflicts with installed credentials, generation or pending publication"
  let next ← expect (u64Add generation 1) overflow
  set { c with
    principalStates := c.principalStates.insert intent.principal
      { generation := next, enabled := false }
    accountDeletions :=
      c.accountDeletions.insert intent.transaction { intent, phase := .prepared } }
  pure true

def permitAccountDeletion (transaction : String) : Mut Catalog Bool := do
  let c ← get
  let current ← okOr c.accountDeletions[transaction]? "no anchored account deletion"
  refuseIf (current.phase != .prepared) "deletion permission requires its exact prepared phase"
  set { c with accountDeletions :=
    c.accountDeletions.insert transaction { current with phase := .publicationPermitted } }
  pure true

def completeAccountDeletion (transaction : String) : Mut Catalog Bool := do
  let message := "deletion completion requires its exact permitted fenced generation"
  let c ← get
  let current ← okOr c.accountDeletions[transaction]? "no anchored account deletion"
  let principal := current.intent.principal
  refuseIf (current.phase != .publicationPermitted ||
    c.accountCommitments[principal]? != some current.intent.credentialBefore) message
  let generation ← expect (u64Add current.intent.expectedGeneration 1) overflow
  refuseIf (c.principalStates[principal]? != some { generation, enabled := false }) message
  set { c with
    deletedPrincipals := c.deletedPrincipals.insert principal
    accountDeletions := c.accountDeletions.insert transaction { current with phase := .complete } }
  pure true

/-! ## Credential transitions -/

/-- `PrepareAccountLock` and `PrepareAdminAccountRecovery` share one branch; `custody` holds what
only the second carries. -/
def prepareTransition (intent : TransitionIntent)
    (custody : Option (String × UInt64 × Verifier)) : Mut Catalog Bool := do
  let c ← get
  let registry ← c.registry
  let principal ← okOr ((registry.principal intent.principal).filter fun r =>
    r.enabled && ((r.uid == 1001) == custody.isSome))
    "account lock changes cannot mutate the original Admin"
  let generation := c.generationOf intent.principal principal
  refuseIf (intent.passwordChange && !intent.locked && c.disabled intent.principal)
    ("password changes cannot implicitly enable a disabled principal; use governed " ++
      "lock/unlock")
  refuseIf (registry.installation != intent.installation ||
      (custody.isNone && intent.activation != c.needsPasswordAging.contains intent.principal &&
        (intent.activation || !intent.locked)) ||
      intent.adminRecovery != custody.isSome ||
      c.deletedPrincipals.contains intent.principal || generation != intent.expectedGeneration ||
      c.accountCommitments[intent.principal]? !=
        some ((custody.map fun x => x.1).getD intent.credentialBefore) ||
      c.accountTransitions.contains intent.transaction ||
      c.accountDeletions.contains intent.transaction || c.transactionCapacity ≥ 128 ||
      c.creationPending || c.accountCreations.contains intent.transaction ||
      c.deletionPending || c.transitionPending)
    "account transition conflicts with current credential, generation or pending publication"
  match custody with
  | none => pure ()
  | some (_, expectedRecoveryGeneration, replacement) => do
    let verifier ← c.recoveryVerifier
    refuseIf (verifier.generation != expectedRecoveryGeneration)
      "Admin recovery credential generation conflict"
    verifier.successor replacement
    modify fun c => { c with
      adminRecovery := some replacement
      accountCommitments := c.accountCommitments.insert intent.principal intent.credentialBefore }
  let next ← okOr (u64Add generation 1) "principal generation exhausted"
  modify fun c => { c with
    principalStates := c.principalStates.insert intent.principal
      { generation := next, enabled := false }
    accountTransitions :=
      c.accountTransitions.insert intent.transaction { intent, phase := .prepared } }
  pure true

/-- `PermitAccountPublication` and `PermitAdminAccountRecovery`. -/
def permitTransition (transaction : String) (custody : Bool) : Mut Catalog Bool := do
  let c ← get
  let current ← okOr c.accountTransitions[transaction]? "no anchored account transition"
  refuseIf (current.phase != .prepared || current.intent.adminRecovery != custody)
    "account publication requires its exact prepared phase"
  set { c with accountTransitions :=
    c.accountTransitions.insert transaction { current with phase := .publicationPermitted } }
  pure true

/-- `CompleteAccountLock` and `CompleteAdminAccountRecovery`. The aging fence is checked after the
commitment and the state are written. -/
def completeTransition (transaction : String) (custody : Bool) : Mut Catalog Bool := do
  let message := "account completion requires its exact permitted fenced generation"
  let c ← get
  let current ← okOr c.accountTransitions[transaction]? "no anchored account transition"
  let principal := current.intent.principal
  refuseIf (current.phase != .publicationPermitted || current.intent.adminRecovery != custody ||
    c.accountCommitments[principal]? != some current.intent.credentialBefore) message
  let generation ← expect (u64Add current.intent.expectedGeneration 1) overflow
  refuseIf (c.principalStates[principal]? != some { generation, enabled := false }) message
  modify fun c => { c with
    accountCommitments := c.accountCommitments.insert principal current.intent.credentialAfter
    principalStates := c.principalStates.insert principal
      { generation, enabled := !current.intent.locked } }
  if current.intent.activation then do
    let fenced := (← get).needsPasswordAging.contains principal
    modify fun c => { c with needsPasswordAging := c.needsPasswordAging.erase principal }
    refuseIf (!fenced) "activation completion lost its creation aging fence"
  modify fun c => { c with accountTransitions :=
    c.accountTransitions.insert transaction { current with phase := .complete } }
  pure true

/-! ## Principals -/

def checkpointAccounts (commitments : Table String) : Mut Catalog Bool := do
  let c ← get
  let registry ← c.registry
  let expected := (registry.principals.filter fun r => r.enabled).map fun r => r.id
  refuseIf (!(commitments.keys.all expected.contains && expected.all commitments.contains))
    "account checkpoint does not bind every installed enabled principal"
  if c.accountCommitments.isEmpty then do
    set { c with accountCommitments := commitments }
    pure true
  else if c.accountCommitments == commitments then
    pure false
  else
    refuse "credential authority is already checkpointed; lifecycle reconciliation required"

/-- The enabled original Admin of the adopted registry. -/
def originalAdmin (c : Catalog) (message : String) : Result (Registry × Principal) := do
  let registry ← okOr c.principalRegistry adoptionRequired
  let admin ← okOr (registry.bootstrapAdmin.filter fun r => r.enabled) message
  pure (registry, admin)

instance noPanic_originalAdmin (c : Catalog) (message : String) :
    NoPanic (c.originalAdmin message) := by
  unfold originalAdmin
  infer_instance

def recoverAdmin (expectedGeneration expectedRecoveryGeneration : UInt64)
    (replacement : Verifier) : Mut Catalog Bool := do
  let c ← get
  let (registry, admin) ← c.originalAdmin "missing enabled original Admin"
  let verifier ← c.recoveryVerifier
  refuseIf (verifier.generation != expectedRecoveryGeneration)
    "recovery credential generation conflict"
  verifier.successor replacement
  replacement.validate registry.installation admin.id
  refuseIf (c.disabled admin.id) "disabled Admin requires separate account-lifecycle recovery"
  let generation := c.generationOf admin.id admin
  refuseIf (generation != expectedGeneration) "recovery Admin generation conflict"
  let next ← okOr (u64Add generation 1) "Admin generation exhausted"
  set { c with
    principalStates := c.principalStates.insert admin.id { generation := next, enabled := true }
    adminRecovery := some replacement }
  pure true

def rotateAdmin (expectedGeneration : UInt64) : Mut Catalog Bool := do
  let c ← get
  let (_, record) ← c.originalAdmin "missing enabled adopted bootstrap Admin"
  refuseIf (c.disabled record.id) "disabled Admin requires separate governed custody recovery"
  let generation := c.generationOf record.id record
  refuseIf (generation != expectedGeneration) "governed Admin generation conflict"
  let next ← okOr (u64Add generation 1) "Admin generation exhausted"
  set { c with
    principalStates := c.principalStates.insert record.id { generation := next, enabled := true } }
  pure true

def advancePrincipal (principal : String) (expectedGeneration : UInt64) (enabled : Bool) :
    Mut Catalog Bool := do
  let c ← get
  refuseIf (c.deletedPrincipals.contains principal ||
      (enabled && c.needsPasswordAging.contains principal) ||
      (c.accountCreations.toList.any fun e =>
        e.2.intent.principal.id == principal && e.2.phase != .complete) ||
      (c.accountDeletions.toList.any fun e =>
        e.2.intent.principal == principal && e.2.phase != .complete) ||
      (c.accountTransitions.toList.any fun e =>
        e.2.intent.principal == principal && e.2.phase != .complete))
    "pending account transaction fences principal changes"
  let registry ← c.registry
  let record ← okOr (registry.principal principal) "unknown adopted principal"
  refuseIf (record.uid == 1001 || !record.enabled)
    ("bootstrap Admin or initially disabled account requires separate governed custody " ++
      "recovery")
  let generation := c.generationOf principal record
  refuseIf (generation != expectedGeneration) "governed principal generation conflict"
  let next ← okOr (u64Add generation 1) "principal generation exhausted"
  set { c with
    principalStates := c.principalStates.insert principal { generation := next, enabled } }
  pure true

def adoptPrincipals (registry : Registry) : Mut Catalog Bool := do
  let c ← get
  match c.principalRegistry with
  | some anchored =>
    if anchored == registry then
      pure false
    else
      refuse ("principal authority already adopted; a new snapshot cannot replace governed " ++
        "generations")
  | none => do
    set { c with principalRegistry := some registry }
    pure true

/-! ## `Catalog::apply` -/

/-- A branch that always falls through to the version. -/
def always (m : Mut Catalog Unit) : Mut Catalog Bool := do
  m
  pure true

/-- The `match` of `Catalog::apply`: whether the branch falls through to the version. -/
def branch (f : ModelFormats) : Command → Mut Catalog Bool
  | .publishModelTrust expectedSequence bundle => publishModelTrust f expectedSequence bundle
  | .admitModelCatalog expectedFloor admission =>
    always (onModelTrust (ModelState.admitCatalog f expectedFloor admission))
  | .recordModelCatalogApproval request approval => recordModelCatalogApproval f request approval
  | .recordModelCatalogSigning statement => recordModelCatalogSigning f statement
  | .publishSkillTrust expectedVersion bundle =>
    always (onSkillTrust (SkillState.publish f.sha256 expectedVersion bundle))
  | .admitSkillRegistry expectedFloor admission =>
    always (onSkillTrust (SkillState.admitRegistry f.sha256 expectedFloor admission))
  | .publishReleaseTrust expectedVersion bundle =>
    always (onRelease (ReleaseState.publish f.toFormats expectedVersion bundle))
  | .prepareRelease expectedFloor admission =>
    always (onRelease (ReleaseState.prepare f.toFormats expectedFloor admission))
  | .initializeRelease release =>
    always (onRelease (ReleaseState.initializeRelease f.toFormats release))
  | .resolveRelease candidateSha256 outcome =>
    always (onRelease (ReleaseState.resolve f.toFormats candidateSha256 outcome))
  | .registerActivity activity => registerActivity activity
  | .defineRole name activities expectedVersion => defineRole name activities expectedVersion
  | .assignRole assignment => assignRole assignment
  | .revokeAssignment assignment expectedVersion => revokeAssignment assignment expectedVersion
  | .issueGrant grant => issueGrant grant
  | .revokeGrant grant expectedVersion => revokeGrant grant expectedVersion
  | .adoptPrincipals registry => adoptPrincipals registry
  | .checkpointAccounts commitments => checkpointAccounts commitments
  | .prepareAccountLock intent => prepareTransition intent none
  | .prepareAccountDeletion intent => prepareAccountDeletion intent
  | .prepareAccountCreation intent => prepareAccountCreation intent
  | .permitAccountCreation transaction => permitAccountCreation transaction
  | .completeAccountCreation transaction => completeAccountCreation transaction
  | .permitAccountDeletion transaction => permitAccountDeletion transaction
  | .completeAccountDeletion transaction => completeAccountDeletion transaction
  | .permitAccountPublication transaction => permitTransition transaction false
  | .completeAccountLock transaction => completeTransition transaction false
  | .advancePrincipal principal expectedGeneration enabled =>
    advancePrincipal principal expectedGeneration enabled
  | .rotateAdmin expectedGeneration => rotateAdmin expectedGeneration
  | .recoverAdmin expectedGeneration expectedRecoveryGeneration replacement =>
    recoverAdmin expectedGeneration expectedRecoveryGeneration replacement
  | .prepareAdminAccountRecovery intent expectedCredential expectedRecoveryGeneration replacement =>
    prepareTransition intent (some (expectedCredential, expectedRecoveryGeneration, replacement))
  | .permitAdminAccountRecovery transaction => permitTransition transaction true
  | .completeAdminAccountRecovery transaction => completeTransition transaction true

/-- `Catalog::apply`. -/
def apply (f : ModelFormats) (command : Command) : Mut Catalog Bool := do
  command.validate f
  let nextState ← okOr (u64Add (← get).stateVersion 1) "Admin catalog version exhausted"
  if ← branch f command then
    modify fun c => { c with stateVersion := nextState }
    pure true
  else
    pure false

/-- `retain_assignment_receipt` (`admin_governance.rs:89-95`): the adapter records the digest of
the journal bytes of an assignment beside it. -/
def retainAssignmentReceipt (sha256 : Bytes → Vector UInt8 32) (command : Command)
    (bytes : Bytes) (c : Catalog) : Catalog :=
  match command with
  | .assignRole assignment =>
    { c with assignmentReceipts :=
      c.assignmentReceipts.insert assignment.id (hex (sha256 bytes).toList) }
  | _ => c

end Catalog

end LumaOS.Governance
