import LumaOS.Governance.Identity

/-!
# Finite grants and assignments

The authorization records of `finite_grants.rs:9-420`, the attribution of an effect to one of them,
and the UTC interval they are checked against (`utc_bounds.rs:8-45`): what a record must satisfy on
its own. Whether it is current is a question to the catalog (`LumaOS.Governance.Catalog`).
-/

namespace LumaOS.Governance

open LumaOS.Base LumaOS.Text LumaOS.Json

/-! ## UTC intervals -/

/-- `utc_bounds::Interval`. -/
structure Interval where
  lowerMs : Int
  upperMs : Int
deriving DecidableEq, Repr

/-- `Interval::new`. -/
def Interval.new (lower upper : Int) : Result Interval := do
  refuseIf (lower < 0 || upper < lower) "invalid UTC interval"
  pure { lowerMs := lower, upperMs := upper }

instance Interval.noPanic_new (lower upper : Int) : NoPanic (Interval.new lower upper) := by
  unfold Interval.new
  infer_instance

/-- `Interval::within`: every possible time is inside `[notBefore, expires)`. -/
def Interval.within (i : Interval) (notBefore expires : Int) : Result Bool := do
  refuseIf (notBefore < 0 || expires ≤ notBefore) "invalid finite UTC validity window"
  pure (i.lowerMs ≥ notBefore && i.upperMs < expires)

instance Interval.noPanic_within (i : Interval) (notBefore expires : Int) :
    NoPanic (i.within notBefore expires) := by
  unfold Interval.within
  infer_instance

/-! ## Records -/

structure Assignment where
  id : String
  subject : String
  subjectGeneration : UInt64
  role : String
  roleVersion : UInt64
  version : UInt64
  notBeforeMs : Int
  expiresMs : Int
  revoked : Bool
deriving DecidableEq, Repr

inductive Action where
  | read
  | calculate
  | write
  | execute
  | cancel
  | resume
  | retain
  | export
  | delete
  | infer
  | startWorker
  | stopWorker
  | acquireResource
  | provisionResource
  | recoverResource
  | executeGenerated
  | qualifyModel
deriving DecidableEq, Repr

/-- `Action::activity`. -/
def Action.activity : Action → String
  | .read => "file.read"
  | .calculate => "calculation.execute"
  | .write => "artifact.write"
  | .execute => "workflow.execute"
  | .cancel => "workflow.cancel"
  | .resume => "workflow.resume"
  | .retain => "resource.retention"
  | .export => "artifact.export"
  | .delete => "artifact.delete"
  | .infer => "inference.execute"
  | .startWorker => "worker.start"
  | .stopWorker => "worker.stop"
  | .acquireResource => "resource.acquire"
  | .provisionResource => "resource.provision"
  | .recoverResource => "resource.recover"
  | .executeGenerated => "generated.execute"
  | .qualifyModel => "model.qa"

/-- `finite_grants::Kind`. -/
inductive SelectorKind where
  | file
  | calculation
  | artifact
  | workflow
  | model
  | worker
  | resource
  | generatedCode
  | modelQa
deriving DecidableEq, Repr

structure Selector where
  kind : SelectorKind
  id : String
  generation : UInt64
  digest : String
deriving DecidableEq, Repr

/-- `Selector::validate`. -/
def Selector.validate (s : Selector) : Result Unit := do
  refuseIf (!identifier s.id || s.generation == 0)
    "finite selector requires exact identity and nonzero generation"
  let empty ← emptyDigest 32 s.digest
  refuseIf empty "finite selector requires a nonzero protected target digest"

instance Selector.noPanic_validate (s : Selector) : NoPanic s.validate := by
  unfold Selector.validate
  infer_instance

/-- `Selector::permits`. -/
def Selector.permits (s : Selector) (action : Action) : Bool :=
  match s.kind, action with
  | .file, .read => true
  | .calculation, .calculate => true
  | .artifact, .write => true
  | .artifact, .export => true
  | .artifact, .delete => true
  | .artifact, .retain => true
  | .workflow, .execute => true
  | .workflow, .cancel => true
  | .workflow, .resume => true
  | .model, .infer => true
  | .worker, .startWorker => true
  | .worker, .stopWorker => true
  | .generatedCode, .executeGenerated => true
  | .modelQa, .qualifyModel => true
  | .resource, .acquireResource => true
  | .resource, .retain => true
  | .resource, .provisionResource => true
  | .resource, .recoverResource => true
  | _, _ => false

structure Constraints where
  maxInputBytes : UInt64
  maxOutputBytes : UInt64
  maxUnits : UInt64
deriving DecidableEq, Repr

/-- `Constraints::validate`: only the two compiled model packs may exceed one GiB. -/
def Constraints.validate (c : Constraints) (selector : Selector) (action : Action) :
    Result Unit :=
  let bytes : UInt64 :=
    if selector.kind == .resource && action == .acquireResource &&
        (selector.id == "ModelPack-qwen3-4b-q4-k-m" || selector.id == "ModelPack-qwen3-1-7b-q4-k-m")
    then 64 * 1024 * 1024 * 1024
    else 1073741824
  refuseIf (c.maxInputBytes > bytes || c.maxOutputBytes > bytes || c.maxUnits == 0 ||
      c.maxUnits > 1000000)
    "finite grant constraints exceed product bounds"

structure Grant where
  id : String
  assignment : String
  assignmentVersion : UInt64
  subject : String
  subjectGeneration : UInt64
  action : Action
  selector : Selector
  constraints : Constraints
  version : UInt64
  notBeforeMs : Int
  expiresMs : Int
  revoked : Bool
deriving DecidableEq, Repr

/-- `finite_grants::validity`: a positive window of at most 366 days before 2100. -/
def grantValidity (notBefore expires : Int) : Result Unit :=
  refuseIf (notBefore ≤ 0 || expires > 4102444800000 ||
      ((i64Sub expires notBefore).filter fun v => 0 < v && v ≤ 366 * 86400000).isNone)
    "grant and assignment validity must be finite and bounded"

/-- `Assignment::validate`. -/
def Assignment.validate (a : Assignment) : Result Unit := do
  let _ ← decode 32 a.subject
  grantValidity a.notBeforeMs a.expiresMs
  refuseIf (!identifier a.id || !identifier a.role || a.role == "Admin" ||
      a.subjectGeneration == 0 || a.roleVersion == 0 || a.version != 1 || a.revoked)
    "invalid finite role assignment; Admin is not delegable"

instance Assignment.noPanic_validate (a : Assignment) : NoPanic a.validate := by
  unfold Assignment.validate grantValidity
  infer_instance

/-- `Grant::validate`. -/
def Grant.validate (g : Grant) : Result Unit := do
  let _ ← decode 32 g.subject
  grantValidity g.notBeforeMs g.expiresMs
  g.selector.validate
  g.constraints.validate g.selector g.action
  refuseIf (!identifier g.id || !identifier g.assignment || g.assignmentVersion == 0 ||
      g.subjectGeneration == 0 || g.version != 1 || g.revoked || !g.selector.permits g.action)
    "invalid exact finite capability grant"

instance Grant.noPanic_validate (g : Grant) : NoPanic g.validate := by
  unfold Grant.validate Constraints.validate grantValidity
  infer_instance

/-- `finite_grants::Use`. -/
structure Use where
  action : Action
  selector : Selector
  inputBytes : UInt64
  outputBytes : UInt64
  units : UInt64
deriving DecidableEq, Repr

/-- `Use::validate`. -/
def Use.validate (u : Use) : Result Unit := do
  u.selector.validate
  refuseIf (u.units == 0 || !u.selector.permits u.action)
    "effect use does not match its finite selector"

instance Use.noPanic_validate (u : Use) : NoPanic u.validate := by
  unfold Use.validate
  infer_instance

/-! ## Attribution -/

/-- `finite_grants::Audit`. -/
structure Audit where
  subject : String
  subjectGeneration : UInt64
  grantId : String
  grantVersion : UInt64
  checkpointHead : String
  operationId : Option String
  usage : Use
deriving DecidableEq, Repr

/-- `Audit::validate`. -/
def Audit.validate (a : Audit) : Result Unit := do
  a.usage.validate
  let subjectEmpty ← emptyDigest 32 a.subject
  let headEmpty ← if subjectEmpty then pure true else emptyDigest 32 a.checkpointHead
  refuseIf (subjectEmpty || headEmpty || a.subjectGeneration == 0 || a.grantVersion != 1 ||
      !identifier a.grantId ||
      a.operationId.any fun v => v.utf8ByteSize != 32 || !v.toList.all lowerHex)
    "invalid finite grant attribution record"

/-! ## Serialisation -/

def Action.toJson (a : Action) : Value := .string a.activity

def SelectorKind.toJson : SelectorKind → Value
  | .file => .string "file"
  | .calculation => .string "calculation"
  | .artifact => .string "artifact"
  | .workflow => .string "workflow"
  | .model => .string "model"
  | .worker => .string "worker"
  | .resource => .string "resource"
  | .generatedCode => .string "generated_code"
  | .modelQa => .string "model_qa"

def Selector.toJson (s : Selector) : Value :=
  .object [("kind", s.kind.toJson), ("id", .string s.id), ("generation", u64Json s.generation),
    ("digest", .string s.digest)]

def Constraints.toJson (c : Constraints) : Value :=
  .object [("max_input_bytes", u64Json c.maxInputBytes),
    ("max_output_bytes", u64Json c.maxOutputBytes), ("max_units", u64Json c.maxUnits)]

def Assignment.toJson (a : Assignment) : Value :=
  .object [("id", .string a.id), ("subject", .string a.subject),
    ("subject_generation", u64Json a.subjectGeneration), ("role", .string a.role),
    ("role_version", u64Json a.roleVersion), ("version", u64Json a.version),
    ("not_before_ms", .number a.notBeforeMs), ("expires_ms", .number a.expiresMs),
    ("revoked", .bool a.revoked)]

def Grant.toJson (g : Grant) : Value :=
  .object [("id", .string g.id), ("assignment", .string g.assignment),
    ("assignment_version", u64Json g.assignmentVersion), ("subject", .string g.subject),
    ("subject_generation", u64Json g.subjectGeneration), ("action", g.action.toJson),
    ("selector", g.selector.toJson), ("constraints", g.constraints.toJson),
    ("version", u64Json g.version), ("not_before_ms", .number g.notBeforeMs),
    ("expires_ms", .number g.expiresMs), ("revoked", .bool g.revoked)]

def Use.toJson (u : Use) : Value :=
  .object [("action", u.action.toJson), ("selector", u.selector.toJson),
    ("input_bytes", u64Json u.inputBytes), ("output_bytes", u64Json u.outputBytes),
    ("units", u64Json u.units)]

def Audit.toJson (a : Audit) : Value :=
  .object ([("subject", .string a.subject), ("subject_generation", u64Json a.subjectGeneration),
    ("grant_id", .string a.grantId), ("grant_version", u64Json a.grantVersion),
    ("checkpoint_head", .string a.checkpointHead)] ++
    skipNone "operation_id" .string a.operationId ++ [("usage", a.usage.toJson)])

end LumaOS.Governance
