import LumaOS.Base.Digraph
import LumaOS.Base.Loop
import LumaOS.Base.Table
import LumaOS.Base.While
import LumaOS.Json
import Mathlib.Algebra.GroupWithZero.Nat

/-!
# Workflow graphs and their admission

Model of `workflow.rs:12-64, 88-221`: a graph of typed nodes, `validate`, and `Executable`. SHA-256
is outside the repository and so is the deserialiser; both are parameters.
-/

namespace LumaOS.Workflow

open LumaOS.Base LumaOS.Text LumaOS.Json Relation

/-- `MAX_SPEC_BYTES`. -/
def maxSpecBytes : Nat := 64 * 1024

/-- `MAX_NODES`. -/
def maxNodes : Nat := 64

/-- `MAX_INPUTS`. -/
def maxInputs : Nat := 16

/-- `workflow::Kind`. -/
inductive Kind where
  | fileRead
  | deterministicCalculate
  | artifactWrite
deriving DecidableEq

/-- `workflow::ValueType`. -/
inductive ValueType where
  | text
  | report
  | artifact
deriving DecidableEq

/-- `workflow::Node`. -/
structure Node where
  id : String
  kind : Kind
  dependencies : List String
  inputTypes : List ValueType
  outputType : ValueType
deriving DecidableEq

/-- `workflow::Graph`. -/
structure Graph where
  schemaVersion : UInt32
  profile : String
  graphId : String
  nodes : List Node
deriving DecidableEq

def Kind.toJson : Kind → Value
  | .fileRead => .string "file-read"
  | .deterministicCalculate => .string "deterministic-calculate"
  | .artifactWrite => .string "artifact-write"

def ValueType.toJson : ValueType → Value
  | .text => .string "text"
  | .report => .string "report"
  | .artifact => .string "artifact"

def Node.toJson (n : Node) : Value :=
  .object [("id", .string n.id), ("kind", n.kind.toJson),
    ("dependencies", .array (n.dependencies.map .string)),
    ("input_types", .array (n.inputTypes.map ValueType.toJson)),
    ("output_type", n.outputType.toJson)]

def Graph.toJson (g : Graph) : Value :=
  .object [("schema_version", .number g.schemaVersion.toNat), ("profile", .string g.profile),
    ("graph_id", .string g.graphId), ("nodes", .array (g.nodes.map Node.toJson))]

/-- `workflow::identifier`. -/
def identifier (value : String) : Bool :=
  !value.isEmpty && value.utf8ByteSize ≤ 64 &&
    value.toList.all fun c => c.isAlphanum || c == '-' || c == '_' || c == '.'

/-! ## The checks of `validate` -/

/-- One node of the loop that builds `nodes`. -/
def declare (nodes : Table Node) (node : Node) : Result (Table Node) := do
  refuseIf (!identifier node.id || node.dependencies.length > maxInputs ||
      node.dependencies.length != node.inputTypes.length || nodes.contains node.id)
    "invalid or duplicate native workflow node"
  pure (nodes.insert node.id node)

/-- One dependency of the loop over a node's dependencies; the accumulator is `unique`. -/
def bindDependency (nodes : Table Node) (node : Node) (unique : Names) (dependency : String) :
    Result Names := do
  refuseIf (!identifier dependency || dependency == node.id || unique.contains dependency ||
      !nodes.contains dependency)
    "unknown, duplicate or self-dependent workflow input"
  pure (unique.insert dependency)

/-- The loop over all dependencies. -/
def bindDependencies (nodes : Table Node) (node : Node) : Result Unit := do
  let _ ← node.dependencies.foldlM (bindDependency nodes node) ∅
  pure ()

/-- The nodes that are left with no dependency left, in key order. -/
def ready (remaining : Table Names) : List String :=
  remaining.toList.filterMap fun (id, deps) => if deps.isEmpty then some id else none

/-- One turn of `while !remaining.is_empty()`, which takes off all ready nodes. -/
def peel : Table Names × List String → Result (Turn (Table Names × List String) (List String))
  | (remaining, order) => do
    if remaining.isEmpty then return .done order
    let ready := ready remaining
    refuseIf ready.isEmpty "native workflow contains a dependency cycle"
    let remaining := ready.foldl (fun remaining id => remaining.erase id) remaining
    let remaining := remaining.map fun _ deps => ready.foldl (fun deps id => deps.erase id) deps
    return .again (remaining, order ++ ready)

/-- `remaining` before the loop: every node with its dependencies. -/
def dependencySets (nodes : Table Node) : Table Names :=
  nodes.map fun _ node => node.dependencies.foldl (fun deps d => deps.insert d) ∅

/-- The stable topological order; every turn takes off a node. -/
def sort (nodes : Table Node) : Result (List String) :=
  loop peel (nodes.size + 1) (dependencySets nodes, [])

/-- `(min_inputs, max_inputs, expected_input, expected_output)`. -/
def Kind.contract : Kind → Nat × Nat × Option ValueType × ValueType
  | .fileRead => (0, 0, none, .text)
  | .deterministicCalculate => (1, maxInputs, some .text, .report)
  | .artifactWrite => (1, 1, some .report, .artifact)

/-- `nodes[id].output_type != expected`, which panics where there is no such node. -/
def outputDiffers (nodes : Table Node) (expected : ValueType) (id : String) : Result Bool := do
  let node ← expect nodes[id]? "no entry found for key"
  pure (node.outputType != expected)

/-- `node.dependencies.iter().any(..)`, which stops at the first that differs. -/
def anyOutputDiffers (nodes : Table Node) (expected : ValueType) : List String → Result Bool
  | [] => pure false
  | id :: ids => do
    if ← outputDiffers nodes expected id then pure true
    else anyOutputDiffers nodes expected ids

/-- The type contract of one node. -/
def checkContract (nodes : Table Node) (node : Node) : Result Unit := do
  let (minInputs, maxInputs, expectedInput, expectedOutput) := node.kind.contract
  let mismatch := "native workflow node type contract mismatch"
  refuseIf (node.dependencies.length < minInputs || node.dependencies.length > maxInputs ||
    node.outputType != expectedOutput ||
    node.inputTypes.any fun input => some input != expectedInput) mismatch
  refuseIf (← anyOutputDiffers nodes (expectedInput.getD .text) node.dependencies) mismatch

/-- One turn of `while let Some(id) = sinks.pop()`; the head of the list is the top of the
stack. -/
def traverse (nodes : Table Node) :
    List String × Names → Result (Turn (List String × Names) Names)
  | ([], connected) => .ok (.done connected)
  | (id :: sinks, connected) =>
    if connected.contains id then .ok (.again (sinks, connected))
    else do
      let node ← expect nodes[id]? "no entry found for key"
      pure (.again (node.dependencies.reverse ++ sinks, connected.insert id))

/-- The dependencies of the nodes not visited yet. -/
def unvisited (nodes : Table Node) (connected : Names) : Nat :=
  (nodes.toList.map fun (id, node) =>
    if connected.contains id then 0 else node.dependencies.length).sum

/-- What the sinks are made from. A turn takes one node off the stack, and a node's dependencies are
put on it once. -/
def connect (nodes : Table Node) (sinks : List String) : Result Names :=
  loop (traverse nodes) (sinks.length + unvisited nodes ∅ + 1) (sinks.reverse, ∅)

/-- What `validate` returns. -/
structure Validation where
  schemaVersion : Nat := 1
  profile : String
  graphId : String
  nodes : Nat
  order : List String
  fingerprint : String
  signedRegistryAdmitted : Bool := false
  effectExecuted : Bool := false
  gateClosing : Bool := false
deriving DecidableEq

/-- The graph with its nodes in key order, as it is hashed. -/
def normalized (graph : Graph) (nodes : Table Node) : Value :=
  sorted (.object [("schema_version", .number 1), ("profile", .string graph.profile),
    ("graph_id", .string graph.graphId),
    ("nodes", .array (nodes.toList.map fun (_, node) => node.toJson))])

/-- `workflow::validate`; `sha256` is `Sha256::digest`. -/
def validate (sha256 : Bytes → Bytes) (graph : Graph) : Result Validation := do
  refuseIf (graph.schemaVersion != 1 || graph.profile != "file-to-artifact-v1" ||
      !identifier graph.graphId || graph.nodes.isEmpty || graph.nodes.length > maxNodes)
    "invalid native workflow profile or graph bounds"
  let nodes ← graph.nodes.foldlM declare ∅
  graph.nodes.forM (bindDependencies nodes)
  let order ← sort nodes
  graph.nodes.forM (checkContract nodes)
  let sinks := (graph.nodes.filter fun node => node.kind == .artifactWrite).map Node.id
  refuseIf sinks.isEmpty "native workflow has no managed artifact output"
  let connected ← connect nodes sinks
  refuseIf (connected.size != nodes.size) "native workflow contains unused nodes"
  pure
    { profile := graph.profile
      graphId := graph.graphId
      nodes := nodes.size
      order
      fingerprint := hex (sha256 (toVec (normalized graph nodes))) }

end LumaOS.Workflow
