import LumaOS.Json.Injective
import LumaOS.Resources.Ledger
import LumaOS.Workflow.Graph

/-!
# Durable runs of a workflow

Model of `workflow_dag.rs`: plans and their validation (`24-150, 216-310, 382-409`), the checkpoint
store (`508-530, 655-664, 774-1010`) and `next_event` (`1067-1088`), with what they use of
`workflow.rs` (`Executable`), `workflow_resource.rs` (`token_valid`, `batch_bytes`),
`artifact_catalog.rs` (the invoice receipt) and `sqlite.rs` (`query` and its bounds).

The database is its two tables; a transaction that does not reach `COMMIT` is rolled back when it is
dropped (`transact`). SHA-256, `serde_json`'s readers, the objects on disk and the outcomes of
system calls come from outside.
-/

namespace LumaOS.Workflow

open LumaOS.Base LumaOS.Text LumaOS.Json
open LumaOS.Resources (Token)

instance decidableEqValue : DecidableEq Value := fun a b =>
  decidable_of_iff (text a = text b) text_injective.eq_iff

/-! ## Plans and events -/

/-- `MAX_RUNS`. -/
def maxRuns : Nat := 128

/-- `INPUT_DIRECTORY`. -/
def inputDirectory : String := "/var/lib/luma-os/workflow-inputs"

/-- `workflow_dag::Target`. -/
structure Target where
  artifactId : String
  expectedVersion : UInt64
deriving DecidableEq

/-- `scoped_read::RootIdentity`. -/
structure RootIdentity where
  device : UInt64
  inode : UInt64
deriving DecidableEq

/-- `scoped_read::SourceIdentity`. -/
structure SourceIdentity where
  root : String
  relative : String
  rootIdentity : RootIdentity
  device : UInt64
  inode : UInt64
  bytes : UInt64
  modifiedSeconds : Int
  modifiedNanos : Int
  changedSeconds : Int
  changedNanos : Int
  uid : UInt32
  gid : UInt32
  mode : UInt32
  sha256 : String
deriving DecidableEq

/-- `workflow_dag::Proposal`. -/
structure Proposal where
  schemaVersion : UInt32
  requestId : String
  workflowSha256 : String
  inputs : Table SourceIdentity
  targets : Table Target
  historyEpoch : Option UInt64
deriving DecidableEq

/-- `workflow_dag::Owner`. -/
structure Owner where
  principal : String
  generation : UInt64
deriving DecidableEq

/-- `workflow_dag::Plan`. -/
structure Plan where
  schemaVersion : UInt32
  installation : String
  proposal : Proposal
  graph : Graph
  order : List String
  storageDevice : String
  owner : Option Owner
deriving DecidableEq

/-- `workflow_dag::Output`. -/
inductive Output where
  | text (sha256 : String) (bytes : UInt64)
  | report (sha256 : String) (bytes : UInt64) (inputSha256 : String) (lease : Token)
  | artifact (receipt : Value)
deriving DecidableEq

/-- `workflow_dag::Phase`. -/
inductive Phase where
  | prepared
  | applying
  | completed
  | cancelled
deriving DecidableEq

/-- `workflow_dag::Event`; the `u32` ordinal counts up from zero and is at most 129 in a row. -/
structure Event where
  schemaVersion : UInt32
  ordinal : Nat
  planSha256 : String
  previousSha256 : String
  node : String
  phase : Phase
  output : Option Output
  policyOperationId : String
deriving DecidableEq

/-- `workflow_dag::Run`. -/
structure Run where
  plan : Plan
  event : Event
  cursor : Nat
  outputs : Table Output

/-! ## Serialisation -/

def Target.toJson (t : Target) : Value :=
  .object [("artifact_id", .string t.artifactId), ("expected_version", u64Json t.expectedVersion)]

def SourceIdentity.toJson (s : SourceIdentity) : Value :=
  .object [("root", .string s.root), ("relative", .string s.relative),
    ("root_identity", .object [("device", u64Json s.rootIdentity.device),
      ("inode", u64Json s.rootIdentity.inode)]),
    ("device", u64Json s.device), ("inode", u64Json s.inode), ("bytes", u64Json s.bytes),
    ("modified_seconds", .number s.modifiedSeconds), ("modified_nanos", .number s.modifiedNanos),
    ("changed_seconds", .number s.changedSeconds), ("changed_nanos", .number s.changedNanos),
    ("uid", u32Json s.uid), ("gid", u32Json s.gid), ("mode", u32Json s.mode),
    ("sha256", .string s.sha256)]

def Proposal.toJson (p : Proposal) : Value :=
  .object ([("schema_version", u32Json p.schemaVersion), ("request_id", .string p.requestId),
    ("workflow_sha256", .string p.workflowSha256),
    ("inputs", .object (p.inputs.toList.map fun (k, v) => (k, v.toJson))),
    ("targets", .object (p.targets.toList.map fun (k, v) => (k, v.toJson)))] ++
    skipNone "history_epoch" u64Json p.historyEpoch)

def Owner.toJson (o : Owner) : Value :=
  .object [("principal", .string o.principal), ("generation", u64Json o.generation)]

def Plan.toJson (p : Plan) : Value :=
  .object [("schema_version", u32Json p.schemaVersion), ("installation", .string p.installation),
    ("proposal", p.proposal.toJson), ("graph", p.graph.toJson),
    ("order", .array (p.order.map .string)), ("storage_device", .string p.storageDevice),
    ("owner", optional Owner.toJson p.owner)]

def Output.toJson : Output → Value
  | .text sha256 bytes =>
    .object [("kind", .string "text"), ("sha256", .string sha256), ("bytes", u64Json bytes)]
  | .report sha256 bytes inputSha256 lease =>
    .object [("kind", .string "report"), ("sha256", .string sha256), ("bytes", u64Json bytes),
      ("input_sha256", .string inputSha256), ("lease", lease.toJson)]
  | .artifact receipt => .object [("kind", .string "artifact"), ("receipt", receipt)]

def Phase.toJson : Phase → Value
  | .prepared => .string "prepared"
  | .applying => .string "applying"
  | .completed => .string "completed"
  | .cancelled => .string "cancelled"

def Event.toJson (e : Event) : Value :=
  .object [("schema_version", u32Json e.schemaVersion), ("ordinal", .number e.ordinal),
    ("plan_sha256", .string e.planSha256), ("previous_sha256", .string e.previousSha256),
    ("node", .string e.node), ("phase", e.phase.toJson),
    ("output", optional Output.toJson e.output),
    ("policy_operation_id", .string e.policyOperationId)]

/-- `serde_json::to_string`. -/
def Plan.canonical (p : Plan) : String := text p.toJson
def Event.canonical (e : Event) : String := text e.toJson

/-- What comes from outside the repository: SHA-256 and `serde_json`'s readers. -/
structure Outside where
  /-- `Sha256::digest`. -/
  sha256 : Bytes → Bytes
  /-- `serde_json::from_slice::<Graph>`. -/
  parseGraph : Bytes → Except String Graph
  /-- `serde_json::from_str::<Plan>`. -/
  parsePlan : String → Except String Plan
  /-- `serde_json::from_str::<Event>`. -/
  parseEvent : String → Except String Event
  /-- `serde_json::from_slice::<Value>`. -/
  parseValue : Bytes → Except String Value

/-! ## Executables and plans -/

/-- `workflow::Executable`. -/
structure Executable where
  graph : Graph
  order : List String
  sha256 : String

section Outside

variable (O : Outside)

/-- `artifacts::digest`. -/
def Outside.digest (bytes : Bytes) : String := hex (O.sha256 bytes)

/-- `workflow_dag::hash`. -/
def Outside.hash (value : Value) : String := O.digest (toVec value)

/-- `workflow::validate_bytes`. -/
def validateBytes (bytes : Bytes) : Result Validation := do
  refuseIf (bytes.isEmpty || bytes.length > maxSpecBytes)
    "invalid or oversized native workflow bytes"
  let graph ← ofForeign (O.parseGraph bytes)
  validate O.sha256 graph

/-- `Executable::from_bytes`. -/
def Executable.fromBytes (bytes : Bytes) : Result Executable := do
  let validation ← validateBytes O bytes
  let graph ← ofForeign (O.parseGraph bytes)
  pure { graph, order := validation.order, sha256 := O.digest bytes }

/-- `Executable::node`. -/
def Executable.node (e : Executable) (id : String) : Result Node :=
  okOr (e.graph.nodes.find? fun node => node.id == id) "unknown DAG node"

/-- `artifacts::identifier`. -/
def artifactIdentifier (value : String) : Bool :=
  !value.isEmpty && value.utf8ByteSize ≤ 64 &&
    value.toList.all fun c => c.isAlphanum || c == '-'

/-- `workflow_dag::operation_id`. -/
def operationId (id : String) : Bool := id.utf8ByteSize == 32 && id.toList.all lowerHex

/-- `workflow_dag::input_root`. -/
def inputRoot (root : String) : Bool :=
  let directory := inputDirectory ++ "/"
  directory.toList.isPrefixOf root.toList &&
    isHash (String.ofList (root.toList.drop directory.toList.length))

/-- The number a string of decimal digits spells. -/
def decimalValue (text : String) : Option Nat :=
  if text.isEmpty || !text.toList.all Char.isDigit then none
  else some (text.toList.foldl (fun n c => 10 * n + (c.toNat - '0'.toNat)) 0)

/-- `text.parse::<u32>().is_ok_and(|value| value >= least && value.to_string() == text)`. A leading
`+`, which `parse` allows, is not how a value prints. -/
def canonicalU32 (least : Nat) (text : String) : Bool :=
  (decimalValue text).any fun value => value < 2 ^ 32 && least ≤ value && toString value == text

/-- The check of `storage_device`: `major:minor`. -/
def deviceIdentity (device : String) : Bool :=
  match device.toList.span (· != ':') with
  | (major, _ :: minor) =>
    canonicalU32 1 (String.ofList major) && canonicalU32 0 (String.ofList minor)
  | (_, []) => false

/-- The ids of the nodes of a kind, sorted. -/
def Graph.ofKind (g : Graph) (kind : Kind) : List String :=
  ((g.nodes.filter fun node => node.kind == kind).map Node.id).insertionSort (· ≤ ·)

/-- The stored source of one input. -/
def checkInput (input : SourceIdentity) : Result Unit :=
  refuseIf (!isHash input.sha256 || input.bytes == 0 || input.bytes > 1024 * 1024 ||
      !inputRoot input.root)
    "DAG stored source identity is malformed"

/-- The stored target of one output. -/
def checkTarget (target : Target) : Result Unit :=
  refuseIf (!artifactIdentifier target.artifactId || target.expectedVersion ≥ 1024)
    "DAG stored target is malformed"

/-- `Plan::validate`. -/
def Plan.validate (plan : Plan) (installation : String) : Result Executable := do
  let owner ← okOr plan.owner "durable DAG plan lacks its governed owner"
  refuseIf (plan.schemaVersion != 1 || plan.installation != installation || !isHash installation)
    "DAG plan installation or principal binding is invalid"
  let principal ← decode 32 owner.principal
  refuseIf (principal == zeros 32 || owner.generation == 0)
    "DAG plan installation or principal binding is invalid"
  let graph ← Executable.fromBytes O (toVec plan.graph.toJson)
  refuseIf (graph.order != plan.order) "DAG plan topology differs from its checkpoint"
  let stored : Executable := { graph with sha256 := plan.proposal.workflowSha256 }
  let proposal := plan.proposal
  refuseIf (!isHash stored.sha256 || !artifactIdentifier proposal.requestId ||
      proposal.schemaVersion != 1 ||
      proposal.historyEpoch.any (fun epoch => epoch == 0 || epoch == 0xffffffffffffffff) ||
      proposal.inputs.size > 64 || proposal.targets.size > 64)
    "DAG plan proposal is malformed"
  proposal.inputs.toList.forM fun (_, input) => checkInput input
  proposal.targets.toList.forM fun (_, target) => checkTarget target
  let inputs := stored.graph.ofKind .fileRead
  let targets := stored.graph.ofKind .artifactWrite
  let distinctTargets : Names := (proposal.targets.toList.map fun (_, t) => t.artifactId).foldl
    (fun names id => names.insert id) ∅
  refuseIf (inputs != proposal.inputs.keys || targets != proposal.targets.keys ||
      distinctTargets.size != targets.length)
    "DAG stored source or output topology differs"
  refuseIf (!deviceIdentity plan.storageDevice) "DAG stored device identity is malformed"
  pure stored

/-- `Plan::owner`. -/
def Plan.governor (plan : Plan) : Result Owner := okOr plan.owner "DAG owner is missing"

/-- `Plan::effect_id`. -/
def Plan.effectId (plan : Plan) (node : String) : String :=
  O.hash (.array [.string "luma-native-dag-artifact-v1", plan.toJson, .string node])

end Outside

end LumaOS.Workflow
