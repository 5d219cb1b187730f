import LumaOS.Policy.Decision

/-!
# The policy evidence graph

Model of `policy_decisions.rs:449-555` and `:1566-1717`: the records of an operation (its start with
the scopes it declared, the decisions on them, the effects it began and how they ended, its end) and
`validate_record_links`, the check of a whole map of records that every append repeats.

The typed evidence of an archive's disposition (`policy_decisions/history.rs`) is a type of its own
here, `ε`: the graph only asks it to validate itself, to name the effect, usage and attribution it
stands for, and to serialise (`Outside`).
-/

namespace LumaOS.Policy

open LumaOS.Base LumaOS.Text LumaOS.Json LumaOS.Governance
open LumaOS.Utc (ApprovedPolicy)

/-- What the graph takes from elsewhere. -/
structure Outside (ε : Type) where
  sha256 : Bytes → Bytes
  fixed : Result ApprovedPolicy
  evidenceValidate : ε → Result Unit
  evidenceAuthorization : ε → Result (EffectKind × Use × Option Audit)
  evidenceJson : ε → Value

variable {ε : Type}

/-- `io::digest(&serde_json::to_vec(value)?)`. -/
def Outside.digest (O : Outside ε) (value : Value) : String := hex (O.sha256 (toVec value))

/-! ## Records -/

/-- `policy_decisions::Payload`. -/
inductive Payload (ε : Type) where
  | operationStarted (scopes : List (String × Use))
  | decision (decision : Decision)
  | effectStarted (effectId : String) (effectKind : EffectKind) (decisionIds : List String)
  | effectFinished (beginId : String) (beginSha256 : String) (receiptSha256 : Option String)
      (outcome : OperationOutcome) (evidence : Option ε)
  | operationFinished (outcome : OperationOutcome)
deriving DecidableEq

/-- `policy_decisions::Record`. -/
structure Record (ε : Type) where
  schemaVersion : UInt32
  installation : String
  recordId : String
  operationId : String
  payload : Payload ε
deriving DecidableEq

/-- One scope of an operation's start; the accumulator is the set of grants seen. -/
def scopeStep (grants : Names) (scope : String × Use) : Result Names := do
  scope.2.validate
  refuseIf (!identifier scope.1 || grants.contains scope.1) "invalid policy operation scopes"
  pure (grants.insert scope.1)

/-- The typed evidence of an effect's end, with the receipt it must hash to. -/
def checkReceipt (O : Outside ε) (receiptSha256 : Option String) (outcome : OperationOutcome)
    (evidence : ε) : Result Unit := do
  O.evidenceValidate evidence
  refuseIf (outcome != .completed || receiptSha256 != some (O.digest (O.evidenceJson evidence)))
    "policy typed outcome evidence disagrees with receipt"

/-- The checks of `Record::validate` on a payload. -/
def Payload.validate (O : Outside ε) : Payload ε → Result Unit
  | .operationStarted scopes => do
    refuseIf (scopes.isEmpty || scopes.length > 64) "invalid policy operation scope count"
    let _ ← scopes.foldlM scopeStep ∅
    pure ()
  | .decision d => d.validate O.fixed
  | .effectStarted effectId _ decisionIds =>
    refuseIf (!effectName effectId || decisionIds.isEmpty || decisionIds.length > 64 ||
        (decisionIds.any fun v => !isId v) || !decide decisionIds.Nodup)
      "invalid pending policy effect"
  | .effectFinished beginId beginSha256 receiptSha256 outcome evidence => do
    refuseIf (!isId beginId || !isHash beginSha256 ||
        (receiptSha256.any fun v => !isHash v || v == repeatText "00" 32) ||
        (outcome == .completed) != receiptSha256.isSome || outcome == .denied)
      "invalid policy effect terminal evidence"
    evidence.toList.forM (checkReceipt O receiptSha256 outcome)
  | .operationFinished _ => pure ()

/-- `Record::validate`. -/
def Record.validate (O : Outside ε) (r : Record ε) : Result Unit := do
  refuseIf (r.schemaVersion != 1 || !isHash r.installation || !isId r.recordId ||
      !isId r.operationId)
    "invalid policy record identity"
  r.payload.validate O

def Payload.toJson (O : Outside ε) : Payload ε → Value
  | .operationStarted scopes =>
    .object [("kind", .string "operation_started"),
      ("scopes", .array (scopes.map fun s => .array [.string s.1, s.2.toJson]))]
  | .decision d => .object [("kind", .string "decision"), ("decision", d.toJson)]
  | .effectStarted effectId effectKind decisionIds =>
    .object [("kind", .string "effect_started"), ("effect_id", .string effectId),
      ("effect_kind", effectKind.toJson), ("decision_ids", .array (decisionIds.map .string))]
  | .effectFinished beginId beginSha256 receiptSha256 outcome evidence =>
    .object ([("kind", .string "effect_finished"), ("begin_id", .string beginId),
      ("begin_sha256", .string beginSha256), ("receipt_sha256", optional .string receiptSha256),
      ("outcome", outcome.toJson)] ++ skipNone "evidence" O.evidenceJson evidence)
  | .operationFinished outcome =>
    .object [("kind", .string "operation_finished"), ("outcome", outcome.toJson)]

def Record.toJson (O : Outside ε) (r : Record ε) : Value :=
  .object [("schema_version", u32Json r.schemaVersion), ("installation", .string r.installation),
    ("record_id", .string r.recordId), ("operation_id", .string r.operationId),
    ("payload", r.payload.toJson O)]

/-! ## Links -/

/-- One record of the first loop of `validate_record_links`. -/
def collectStart (starts : Table (List (String × Use))) (r : Record ε) :
    Result (Table (List (String × Use))) :=
  match r.payload with
  | .operationStarted scopes => do
    refuseIf (starts.contains r.operationId) "duplicate policy operation start"
    pure (starts.insert r.operationId scopes)
  | _ => pure starts

section Links

variable (O : Outside ε) (records : Table (Record ε))

/-- The record of a name, within the operation. -/
def within (operation name : String) : Option (Record ε) :=
  records[name]?.filter fun r => r.operationId == operation

/-- One decision an effect refers to; the accumulator is the set of grants seen. -/
def checkReference (operation : String) (seen : Names) (decisionId : String) : Result Names := do
  let decision ← okOr (within records operation decisionId) "effect policy decision reference missing"
  match decision.payload with
  | .decision decision => do
    refuseIf (!(decision.outcome == .allow && !seen.contains decision.grantId))
      "pending effect references denied or duplicate scope"
    pure (seen.insert decision.grantId)
  | _ => refuse "pending effect references denied or duplicate scope"

/-- The attribution of typed evidence, against the decision that admitted the effect. -/
def checkAudit (operation : String) (decision : Decision) (audit : Audit) : Result Unit := do
  let refused : Result Unit :=
    refuse "typed effect attribution differs from original admitted decision"
  if audit.operationId ≠ some operation ∨ audit.grantId ≠ decision.grantId then refused else
  let head ← okOr decision.checkpointHead "typed effect decision head missing"
  refuseIf (audit.checkpointHead != head || decision.subject.all fun s =>
      s.principal != audit.subject || s.generation != audit.subjectGeneration)
    "typed effect attribution differs from original admitted decision"

/-- The typed evidence of an effect's end, against the effect's beginning. -/
def checkEvidence (operation : String) (begin : Record ε) (evidence : ε) : Result Unit := do
  let (kind, usage, audit) ← O.evidenceAuthorization evidence
  match begin.payload with
  | .effectStarted _ effectKind decisionIds => do
    refuseIf (effectKind != kind) "typed effect evidence changed original effect kind"
    match decisionIds with
    | [decisionId] => do
      let admitted ← okOr records[decisionId]? "typed effect decision missing"
      match admitted.payload with
      | .decision decision => do
        refuseIf (decision.evaluatedConstraints != usage)
          "typed effect evidence changed original granted scope"
        audit.toList.forM (checkAudit operation decision)
      | _ => refuse "typed effect decision substituted"
    | _ => refuse "typed archive outcome requires its exact single finite scope"
  | _ => refuse "typed effect evidence changed original effect kind"

/-- The beginning of an effect, within the operation. -/
def effectBegin (operation beginId : String) : Option (Record ε) :=
  (within records operation beginId).filter fun r => r.payload matches .effectStarted ..

/-- One record of the second loop of `validate_record_links`; the accumulator is
`(effect_terminals, terminals)`. -/
def checkRecord (starts : Table (List (String × Use))) (acc : Names × Names) (r : Record ε) :
    Result (Names × Names) := do
  let scopes ← okOr starts[r.operationId]? "policy evidence lacks its exact operation start"
  match r.payload with
  | .decision decision => do
    refuseIf (!(scopes.any fun s => s.1 == decision.grantId && s.2 == decision.evaluatedConstraints) ||
        decision.decisionId != r.recordId)
      "policy decision substituted its operation scope"
    pure acc
  | .effectStarted _ _ decisionIds => do
    refuseIf (decisionIds.length != scopes.length) "pending effect omits required grant decisions"
    let _ ← decisionIds.foldlM (checkReference records r.operationId) ∅
    pure acc
  | .effectFinished beginId beginSha256 _ _ evidence => do
    let begin ← okOr (effectBegin records r.operationId beginId)
      "effect outcome lacks its original pending evidence"
    refuseIf (acc.1.contains beginId || O.digest (begin.toJson O) != beginSha256)
      "effect outcome changed or duplicated original pending evidence"
    evidence.toList.forM (checkEvidence O records r.operationId begin)
    pure (acc.1.insert beginId, acc.2)
  | .operationFinished _ => do
    refuseIf (acc.2.contains r.operationId) "duplicate policy operation outcome"
    pure (acc.1, acc.2.insert r.operationId)
  | .operationStarted _ => pure acc

/-- The record ends its operation as completed. -/
def Record.completes (r : Record ε) : Bool := r.payload matches .operationFinished .completed

/-- The record is a denial. -/
def Record.denies (r : Record ε) : Bool :=
  match r.payload with
  | .decision decision => decision.outcome == .deny
  | _ => false

/-- The record leaves an effect open, given the effects that have ended. -/
def Record.uncertain (effectTerminals : Names) (r : Record ε) : Bool :=
  match r.payload with
  | .effectStarted .. => !effectTerminals.contains r.recordId
  | .effectFinished _ _ _ outcome _ => outcome == .uncertain
  | _ => false

/-- One record of the last loop of `validate_record_links`. -/
def checkCompleted (effectTerminals : Names) (r : Record ε) : Result Unit := do
  refuseIf (r.completes && (Table.values records).any fun other =>
      other.operationId == r.operationId && other.denies)
    "completed policy operation retains a permanent denied boundary"
  refuseIf (r.completes && (Table.values records).any fun other =>
      other.operationId == r.operationId && other.uncertain effectTerminals)
    "completed policy operation retains uncertain effect"

/-- `validate_record_links`, which `validate_links` calls on its own map. -/
def validateRecordLinks : Result Unit := do
  let starts ← (Table.values records).foldlM collectStart ∅
  let (effectTerminals, _) ← (Table.values records).foldlM (checkRecord O records starts) (∅, ∅)
  (Table.values records).forM (checkCompleted records effectTerminals)

end Links

end LumaOS.Policy
