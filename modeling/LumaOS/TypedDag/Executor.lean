import LumaOS.Base.Digraph
import LumaOS.Base.Run
import LumaOS.Base.Table
import LumaOS.Json.Dumps

/-!
# The reference typed DAG

Model of `typed_dag.py`: nodes and graphs with what their constructors check, the topological order,
the fingerprint, checkpoints, and `DagExecutor.run`. Python types and values are type variables, with
`isinstance` and the qualified names of types as functions on them; SHA-256 is one too.

What a run meets is an `Env`: whether the token is set when it is asked, what the policy answers, what
a handler returns or raises, and what the sink does. A run leaves a trace of what happened in it.
-/

namespace LumaOS.TypedDag

open LumaOS.Base LumaOS.Text LumaOS.Json

/-- What a graph or a run raises. The validation errors name the node where the message does. -/
inductive Failure where
  | notIdentifier (field : String)
  | nulInIdentifier (field : String)
  | duplicateDependencies (node : String)
  | inputTypesDiffer (node : String)
  | badVersion
  | noNodes
  | duplicateNodes
  | unknownDependencies (node : String) (unknown : List String)
  | selfDependency (node : String)
  | cycle
  | badFingerprint
  | otherContract
  | unknownNodes (unknown : List String)
  | checkpointType (node : String)
  | checkpointDependencies (node : String) (missing : List String)
  | keyError (key : String)
  | inputType (node dependency : String)
  | outputType (node : String)
  | cancelled
  | policyDenied (operation : String)
  | nodeFailed (node : String)
  | raised (message : String)
deriving DecidableEq

/-- `_identifier`. -/
def identifier (value field : String) : Except Failure Unit := do
  raiseIf (value.isEmpty || value.toList.head?.any isSpace || value.toList.getLast?.any isSpace ||
      value.length > 256)
    (.notIdentifier field)
  raiseIf (value.toList.contains '\x00') (.nulInIdentifier field)

/-- `sorted` of some names. -/
def sortedNames (names : List String) : List String := names.insertionSort (· ≤ ·)

/-! ## Graphs -/

/-- `DagNode` without its handler. -/
structure DagNode (τ : Type) where
  nodeId : String
  dependencies : List String
  inputTypes : Table τ
  outputType : τ
  operation : String

structure DagSpec (τ : Type) where
  graphId : String
  version : Int
  nodes : List (DagNode τ)

variable {τ υ : Type}

/-- `DagNode.__post_init__`. -/
def DagNode.postInit (node : DagNode τ) : Except Failure Unit := do
  identifier node.nodeId "node_id"
  identifier node.operation "operation"
  raiseIf (!decide node.dependencies.Nodup) (.duplicateDependencies node.nodeId)
  node.dependencies.forM fun dependency => identifier dependency "dependency"
  raiseIf (!(node.inputTypes.keys.all node.dependencies.contains &&
      node.dependencies.all node.inputTypes.contains))
    (.inputTypesDiffer node.nodeId)

namespace DagSpec

def ids (spec : DagSpec τ) : List String := spec.nodes.map (·.nodeId)

/-- The names of the nodes of `remaining` that wait for nothing. -/
def ready (remaining : List (String × List String)) : List String :=
  sortedNames ((remaining.filter fun entry => entry.2.isEmpty).map Prod.fst)

/-- `remaining` without some nodes, and waiting for them no more. -/
def without (remaining : List (String × List String)) (ready : List String) :
    List (String × List String) :=
  (remaining.filter fun entry => !ready.contains entry.1).map fun entry =>
    (entry.1, entry.2.filter fun dependency => !ready.contains dependency)

/-- The loop of `topological_order`; each turn takes off a node, so that as many turns as there are
nodes are enough. -/
def peel : Nat → List (String × List String) → List String → Except Failure (List String)
  | 0, _, order => .ok order
  | fuel + 1, remaining, order =>
    if remaining.isEmpty then .ok order
    else if (ready remaining).isEmpty then .error .cycle
    else peel fuel (without remaining (ready remaining)) (order ++ ready remaining)

/-- `topological_order`. -/
def topologicalOrder (spec : DagSpec τ) : Except Failure (List String) :=
  peel spec.nodes.length (spec.nodes.map fun node => (node.nodeId, node.dependencies)) []

/-- The checks of one node of a graph. -/
def checkNode (spec : DagSpec τ) (node : DagNode τ) : Except Failure Unit := do
  let unknown := sortedNames (node.dependencies.filter fun d => !spec.ids.contains d)
  raiseIf (!unknown.isEmpty) (.unknownDependencies node.nodeId unknown)
  raiseIf (node.dependencies.contains node.nodeId) (.selfDependency node.nodeId)

/-- `DagSpec.__post_init__`. -/
def postInit (spec : DagSpec τ) : Except Failure Unit := do
  identifier spec.graphId "graph_id"
  raiseIf (spec.version < 1) .badVersion
  raiseIf spec.nodes.isEmpty .noNodes
  raiseIf (!decide spec.ids.Nodup) .duplicateNodes
  spec.nodes.forM spec.checkNode
  let _ ← spec.topologicalOrder
  pure ()

/-- **The graph was constructed**: every node and the graph passed their checks. -/
structure Constructed (spec : DagSpec τ) : Prop where
  nodes : ∀ node ∈ spec.nodes, node.postInit = .ok ()
  spec : spec.postInit = .ok ()

/-- `node_map[node_id]`. -/
def node (spec : DagSpec τ) (nodeId : String) : Except Failure (DagNode τ) :=
  match spec.nodes.find? fun node => node.nodeId == nodeId with
  | some node => .ok node
  | none => .error (.keyError nodeId)

end DagSpec

section Fingerprint

variable (typeName : τ → String) (sha256 : Bytes → Vector UInt8 32)

def DagNode.toJson (node : DagNode τ) : Value :=
  .object [("node_id", .string node.nodeId),
    ("dependencies", .array (node.dependencies.map .string)),
    ("input_types", .object (node.inputTypes.toList.map fun e => (e.1, .string (typeName e.2)))),
    ("output_type", .string (typeName node.outputType)),
    ("operation", .string node.operation)]

/-- `sorted(nodes, key=lambda item: item.node_id)`. -/
def sortedNodes (nodes : List (DagNode τ)) : List (DagNode τ) :=
  nodes.insertionSort fun a b => a.nodeId ≤ b.nodeId

/-- `DagSpec.fingerprint`. -/
def DagSpec.fingerprint (spec : DagSpec τ) : String :=
  let body := Value.object [("graph_id", .string spec.graphId), ("version", .number spec.version),
    ("nodes", .array ((sortedNodes spec.nodes).map (DagNode.toJson typeName)))]
  hex (sha256 (dumps body)).toList

end Fingerprint

/-! ## Checkpoints and runs -/

structure DagCheckpoint (υ : Type) where
  graphFingerprint : String
  completed : Table υ

/-- `DagCheckpoint(…)` with its `__post_init__`. -/
def DagCheckpoint.make (graphFingerprint : String) (completed : Table υ) :
    Except Failure (DagCheckpoint υ) := do
  raiseIf (!isHash graphFingerprint) .badFingerprint
  pure ⟨graphFingerprint, completed⟩

/-- `checkpoint.completed if checkpoint is not None else {}`. -/
def taken : Option (DagCheckpoint υ) → Table υ
  | none => ∅
  | some checkpoint => checkpoint.completed

structure DagRunResult (υ : Type) where
  runId : String
  outputs : Table υ
  executedNodes : List String
  resumedNodes : List String
  checkpoint : DagCheckpoint υ

/-- What a handler raises: a `DagError`, which passes, or something else. -/
inductive HandlerError where
  | dag (e : Failure)
  | other

/-- What one run meets. -/
structure Env (τ υ : Type) where
  runId : String
  cancelledBefore : String → Bool
  policy : DagNode τ → Except Failure Bool
  handler : DagNode τ → Table υ → Except HandlerError υ
  cancelledAfter : String → Bool
  sink : Option (DagCheckpoint υ → Except Failure Unit)

/-- What happens in a run, as seen from outside: a handler is called, its value is accepted, a
checkpoint is published. -/
inductive Happening (υ : Type) where
  | called (nodeId : String) (inputs : Table υ)
  | returned (nodeId : String) (value : υ)
  | published (checkpoint : DagCheckpoint υ)

/-- The variables of a run, and its trace. -/
structure Progress (υ : Type) where
  completed : Table υ
  executed : List String
  trace : List (Happening υ)

/-- One entry `dependency: completed[dependency]`. -/
def takeInput (completed inputs : Table υ) (dependency : String) : Except Failure (Table υ) :=
  match completed[dependency]? with
  | some value => .ok (inputs.insert dependency value)
  | none => .error (.keyError dependency)

/-- `{dependency: completed[dependency] for dependency in node.dependencies}`. -/
def DagNode.inputs (node : DagNode τ) (completed : Table υ) : Except Failure (Table υ) :=
  node.dependencies.foldlM (takeInput completed) ∅

section Run

variable (typeName : τ → String) (isInstance : υ → τ → Bool) (sha256 : Bytes → Vector UInt8 32)
  (spec : DagSpec τ)

/-- The check of one input of a node. -/
def DagNode.checkInput (node : DagNode τ) (inputs : Table υ) (entry : String × τ) :
    Except Failure Unit :=
  match inputs[entry.1]? with
  | some value => raiseIf (!isInstance value entry.2) (.inputType node.nodeId entry.1)
  | none => .error (.keyError entry.1)

/-- The check of the inputs of a node. -/
def DagNode.checkInputs (node : DagNode τ) (inputs : Table υ) : Except Failure Unit :=
  node.inputTypes.toList.forM (node.checkInput isInstance inputs)

/-- The check of one entry of a checkpoint. -/
def DagSpec.checkEntry (completed : Table υ) (entry : String × υ) : Except Failure Unit := do
  let node ← spec.node entry.1
  raiseIf (!isInstance entry.2 node.outputType) (.checkpointType entry.1)
  let missing := sortedNames (node.dependencies.filter fun d => !completed.contains d)
  raiseIf (!missing.isEmpty) (.checkpointDependencies entry.1 missing)

/-- What a run takes over from a checkpoint, after its checks. -/
def DagSpec.restore (checkpoint : Option (DagCheckpoint υ)) : Except Failure (Table υ) := do
  raiseIf (checkpoint.any fun c => c.graphFingerprint != spec.fingerprint typeName sha256)
    .otherContract
  let completed := taken checkpoint
  let unknown := sortedNames (completed.keys.filter fun id => !spec.ids.contains id)
  raiseIf (!unknown.isEmpty) (.unknownNodes unknown)
  completed.toList.forM (spec.checkEntry isInstance completed)
  pure completed

/-- A handler's `try`. -/
def Env.invoke (env : Env τ υ) (node : DagNode τ) (inputs : Table υ) : Except Failure υ :=
  match env.handler node inputs with
  | .ok value => .ok value
  | .error (.dag e) => .error e
  | .error .other => .error (.nodeFailed node.nodeId)

def Progress.log (p : Progress υ) (happening : Happening υ) : Progress υ :=
  { p with trace := p.trace ++ [happening] }

def Progress.complete (p : Progress υ) (nodeId : String) (value : υ) : Progress υ :=
  { completed := p.completed.insert nodeId value
    executed := p.executed ++ [nodeId]
    trace := p.trace ++ [.returned nodeId value] }

/-- The sink of a run is given the current checkpoint. -/
def Env.publish (env : Env τ υ) (current : DagCheckpoint υ) :
    Proc Failure (Progress υ) Unit :=
  match env.sink with
  | none => pure ()
  | some sink => do
    sink current
    modify fun p => p.log (.published current)

/-- The body of the loop of `run`, for a node that is not completed. -/
def Env.execute (env : Env τ υ) (nodeId : String) (completed : Table υ) :
    Proc Failure (Progress υ) Unit := do
  raiseIf (env.cancelledBefore nodeId) Failure.cancelled
  let node ← spec.node nodeId
  let inputs ← node.inputs completed
  node.checkInputs isInstance inputs
  let permitted ← env.policy node
  raiseIf (!permitted) (Failure.policyDenied node.operation)
  modify fun p => p.log (.called nodeId inputs)
  let value ← env.invoke node inputs
  raiseIf (env.cancelledAfter nodeId) Failure.cancelled
  raiseIf (!isInstance value node.outputType) (Failure.outputType nodeId)
  modify fun p => p.complete nodeId value
  let p ← get
  let current ← DagCheckpoint.make (spec.fingerprint typeName sha256) p.completed
  env.publish current

/-- The body of the loop of `run`. -/
def Env.visit (env : Env τ υ) (nodeId : String) : Proc Failure (Progress υ) Unit := do
  let p ← get
  if p.completed.contains nodeId then pure ()
  else env.execute typeName isInstance sha256 spec nodeId p.completed

/-- `DagExecutor.run` (`typed_dag.py:218-294`). -/
def Env.run (env : Env τ υ) (checkpoint : Option (DagCheckpoint υ)) :
    Proc Failure (Progress υ) (DagRunResult υ) := do
  identifier env.runId "run_id"
  let completed ← spec.restore typeName isInstance sha256 checkpoint
  set (⟨completed, [], []⟩ : Progress υ)
  let order ← spec.topologicalOrder
  order.forM (env.visit typeName isInstance sha256 spec)
  let p ← get
  let final ← DagCheckpoint.make (spec.fingerprint typeName sha256) p.completed
  pure ⟨env.runId, p.completed, p.executed, order.filter completed.contains, final⟩

/-! ## One run after the other -/

/-- The checkpoint published last. -/
def latest : List (Happening υ) → Option (DagCheckpoint υ)
  | [] => none
  | .published c :: rest => (latest rest).or (some c)
  | _ :: rest => latest rest

/-- What a run came to. -/
structure Outcome (υ : Type) where
  result : Except Failure (DagRunResult υ)
  trace : List (Happening υ)

/-- A run resumed from the last published checkpoint, and the last published one after it. -/
def resume (last : Option (DagCheckpoint υ)) (env : Env τ υ) :
    Outcome υ × Option (DagCheckpoint υ) :=
  let ended := Proc.exec (env.run typeName isInstance sha256 spec last) ⟨∅, [], []⟩
  (⟨ended.1, ended.2.trace⟩, (latest ended.2.trace).or last)

end Run

end LumaOS.TypedDag
