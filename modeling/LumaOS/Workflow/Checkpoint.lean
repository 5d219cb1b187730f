import LumaOS.Base.Word
import LumaOS.Workflow.Dag

/-!
# The checkpoint store

`Store::load` and `Store::persist` of `workflow_dag.rs`, over the database's tables `runs` and
`events`. `load` replays the checkpoints of a run one by one; `persist` inserts one more in a
transaction, replays the result, and commits.
-/

namespace LumaOS.Workflow

open LumaOS.Base LumaOS.Text LumaOS.Json
open LumaOS.Resources (Token)

/-! ## Receipts -/

/-- `artifact_catalog::InvoiceCommit`. -/
structure InvoiceCommit where
  installation : String
  requestId : String
  artifactId : String
  expectedVersion : UInt64
  workflowSha256 : String
  sourceSha256 : String

/-- `artifact_catalog::Receipt`. -/
structure Receipt where
  schemaVersion : UInt32
  environment : String
  installation : String
  owner : String
  ownerGeneration : Option UInt64
  requestId : String
  artifactId : String
  expectedVersion : UInt64
  version : UInt64
  workflowSha256 : String
  sourceSha256 : String
  contentSha256 : String
  contentBytes : Nat
  filename : String
  mediaType : String
  resourceLease : Option Token

def Receipt.toJson (r : Receipt) : Value :=
  .object ([("schema_version", u32Json r.schemaVersion), ("environment", .string r.environment),
    ("installation", .string r.installation), ("owner", .string r.owner)] ++
    skipNone "owner_generation" u64Json r.ownerGeneration ++
    [("request_id", .string r.requestId), ("artifact_id", .string r.artifactId),
    ("expected_version", u64Json r.expectedVersion), ("version", u64Json r.version),
    ("workflow_sha256", .string r.workflowSha256), ("source_sha256", .string r.sourceSha256),
    ("content_sha256", .string r.contentSha256), ("content_bytes", .number r.contentBytes),
    ("filename", .string r.filename), ("media_type", .string r.mediaType)] ++
    skipNone "resource_lease" Token.toJson r.resourceLease)

/-- `workflow_resource::token_valid`. -/
def tokenValid (t : Token) : Bool :=
  t.generation > 0 && operationId t.leaseId && operationId t.managerEpoch

/-- `Receipt::validate_owner`. -/
def Receipt.validateOwner (r : Receipt) (installation owner : String) : Result Unit :=
  refuseIf (r.schemaVersion != 1 ||
      r.environment != (if owner == "local-root" then "lab" else "installed") ||
      r.owner != owner ||
      (if owner == "local-root" then r.ownerGeneration.isSome
        else !isHash owner || owner == repeatText "0" 64 || r.ownerGeneration.all (· == 0)) ||
      r.installation != installation || !isHash installation || !artifactIdentifier r.requestId ||
      !artifactIdentifier r.artifactId || r.expectedVersion ≥ 1024 ||
      r.version.toNat != r.expectedVersion.toNat + 1 || !isHash r.workflowSha256 ||
      !isHash r.sourceSha256 || !isHash r.contentSha256 || r.contentBytes == 0 ||
      r.contentBytes > 2 * 1024 * 1024 || r.filename != "invoice-summary.json" ||
      r.mediaType != "application/json" || r.resourceLease.any fun t => !tokenValid t)
    "invalid native artifact catalog receipt"

section Outside

variable (O : Outside)

/-- `serde_json::from_slice::<Value>(bytes)?["source_sha256"]`, as a string. -/
def sourceOf (bytes : Bytes) : Result (Option String) := do
  let value ← ofForeign (O.parseValue bytes)
  pure (value.get "source_sha256").asStr

/-- `artifact_catalog::invoice_receipt`, before it is serialised. -/
def invoiceReceipt (commit : InvoiceCommit) (bytes : Bytes) : Result Receipt := do
  let version ← okOr (u64Add commit.expectedVersion 1) "workflow version overflow"
  let receipt : Receipt :=
    { schemaVersion := 1
      environment := "lab"
      installation := commit.installation
      owner := "local-root"
      ownerGeneration := none
      requestId := commit.requestId
      artifactId := commit.artifactId
      expectedVersion := commit.expectedVersion
      version
      workflowSha256 := commit.workflowSha256
      sourceSha256 := commit.sourceSha256
      contentSha256 := O.digest bytes
      contentBytes := bytes.length
      filename := "invoice-summary.json"
      mediaType := "application/json"
      resourceLease := none }
  receipt.validateOwner commit.installation "local-root"
  refuseIf ((← sourceOf O bytes) != some commit.sourceSha256)
    "workflow report provenance differs from its source"
  pure receipt

/-- `domains::owned_invoice_receipt`. -/
def ownedInvoiceReceipt (commit : InvoiceCommit) (principal : String) (generation : UInt64)
    (bytes : Bytes) : Result Value := do
  refuseIf (!isHash principal || principal == repeatText "0" 64 || generation == 0)
    "invalid artifact security domain"
  let receipt ← invoiceReceipt O commit bytes
  let receipt := { receipt with
    owner := principal
    ownerGeneration := some generation
    environment := "installed" }
  receipt.validateOwner commit.installation principal
  pure (sorted receipt.toJson)

/-- `Plan::commit`. -/
def Plan.commit (plan : Plan) (node input effect : String) : Result InvoiceCommit := do
  let target ← okOr plan.proposal.targets[node]? "DAG output target is missing"
  pure
    { installation := plan.installation
      requestId := effect
      artifactId := target.artifactId
      expectedVersion := target.expectedVersion
      workflowSha256 := plan.proposal.workflowSha256
      sourceSha256 := input }

/-! ## Objects -/

/-- What `io::read_member(&self.objects, digest, MAX_OBJECT)` returns during one call. -/
abbrev Objects := String → Result Bytes

/-- `Store::object`. -/
def object (objects : Objects) (digest : String) : Result Bytes := do
  refuseIf (!isHash digest) "invalid DAG object identity"
  let bytes ← objects digest
  refuseIf (O.digest bytes != digest) "DAG object corruption; preserve state"
  pure bytes

/-- One dependency of the loop of `batch_bytes`. -/
def batchText (texts : List (String × Value)) (source : String × Bytes) :
    Result (List (String × Value)) := do
  let (id, bytes) := source
  refuseIf (!identifier id || bytes.isEmpty || bytes.length > 1024 * 1024)
    "invalid calculation dependency identity or size"
  let value ← okOr (String.fromUTF8? ⟨bytes.toArray⟩) "invalid utf-8 sequence"
  pure (texts ++ [(id, .string value)])

/-- `workflow_resource::batch_bytes`. -/
def batchBytes (sources : Table Bytes) : Result Bytes := do
  refuseIf (sources.isEmpty || sources.size > 16)
    "calculation needs one to sixteen exact text dependencies"
  let texts ← sources.toList.foldlM batchText []
  let encoded := toVec (.object [("schema_version", .number 1), ("sources", .object texts)])
  refuseIf (encoded.length > 1024 * 1024)
    "combined calculation dependencies exceed fixed worker input bound"
  pure encoded

/-- One dependency of the loop of `Store::batch`. -/
def batchSource (objects : Objects) (outputs : Table Output) (sources : Table Bytes)
    (dependency : String) : Result (Table Bytes) :=
  match outputs[dependency]? with
  | some (.text sha256 _) => do
    let bytes ← object O objects sha256
    pure (sources.insert dependency bytes)
  | _ => refuse "DAG calculation dependency is not completed text"

/-- `Store::batch`. -/
def batch (objects : Objects) (node : Node) (outputs : Table Output) : Result Bytes := do
  let sources ← node.dependencies.foldlM (batchSource O objects outputs) ∅
  batchBytes sources

/-- `Store::report`, less the lease. -/
def report (objects : Objects) (node : Node) (outputs : Table Output) :
    Result (String × Bytes) := do
  let dependency ← expect node.dependencies[0]? "index out of bounds"
  match outputs[dependency]? with
  | some (Output.report sha256 _ inputSha256 _) => do
    let bytes ← object O objects sha256
    pure (inputSha256, bytes)
  | _ => refuse "DAG publication dependency is not completed report"

/-! ## Replaying checkpoints -/

/-- The output of a completed node against its kind: the `match (node.kind, output)` of `load`. -/
def checkOutput (objects : Objects) (plan : Plan) (previous : Option Event)
    (outputs : Table Output) (node : Node) (output : Output) : Result Unit :=
  match node.kind, output with
  | .fileRead, .text sha256 bytes => do
    let input ← okOr plan.proposal.inputs[node.id]? "DAG source missing"
    let differs := "DAG source checkpoint differs"
    refuseIf (sha256 != input.sha256 || bytes != input.bytes) differs
    let object ← object O objects sha256
    refuseIf (object.length != bytes.toNat) differs
  | .deterministicCalculate, .report sha256 bytes inputSha256 lease => do
    let batch ← batch O objects node outputs
    let report ← object O objects sha256
    let differs := "DAG calculated checkpoint differs"
    refuseIf (report.length != bytes.toNat || inputSha256 != O.digest batch || !tokenValid lease)
      differs
    refuseIf ((← sourceOf O report) != some inputSha256) differs
  | .artifactWrite, .artifact receipt => do
    refuseIf (previous.map Event.phase != some .applying)
      "DAG artifact lacked its applying checkpoint"
    let (input, report) ← report O objects node outputs
    let commit ← plan.commit node.id input (plan.effectId O node.id)
    let owner ← plan.governor
    let expected ← ownedInvoiceReceipt O commit owner.principal owner.generation report
    refuseIf (expected != receipt) "DAG artifact receipt differs"
  | _, _ => refuse "DAG checkpoint output type differs"

/-- What `load` keeps between checkpoints. -/
structure Replay where
  previous : Option Event
  outputs : Table Output
  cursor : Nat

/-- The `match event.phase` of `load`: the outputs and the cursor after the event. -/
def transition (objects : Objects) (plan : Plan) (graph : Executable) (r : Replay)
    (ordinal : Nat) (event : Event) : Result (Table Output × Nat) :=
  let first := ordinal == 0
  let applying := r.previous.map Event.phase == some .applying
  match event.phase with
  | .prepared => do
    refuseIf (!first || !event.node.isEmpty || event.output.isSome)
      "invalid prepared DAG checkpoint"
    pure (r.outputs, r.cursor)
  | .cancelled => do
    refuseIf (first || applying || !event.node.isEmpty || event.output.isSome)
      "invalid DAG cancellation"
    pure (r.outputs, r.cursor)
  | .applying => do
    let invalid := "invalid applying DAG checkpoint"
    refuseIf first invalid
    let expected ← expect graph.order[r.cursor]? "index out of bounds"
    refuseIf (event.node != expected) invalid
    let node ← graph.node event.node
    refuseIf (node.kind != .artifactWrite || event.output.isSome || applying) invalid
    pure (r.outputs, r.cursor)
  | .completed => do
    let differs := "DAG node completion order differs"
    refuseIf first differs
    let expected ← expect graph.order[r.cursor]? "index out of bounds"
    refuseIf (event.node != expected) differs
    let node ← graph.node event.node
    let output ← okOr event.output "DAG completed node lacks output"
    checkOutput O objects plan r.previous r.outputs node output
    pure (r.outputs.insert node.id output, r.cursor + 1)

/-- One row of the loop of `load`: the ordinal and the canonical text. -/
def replay (objects : Objects) (plan : Plan) (graph : Executable) (r : Replay)
    (row : Nat × String) : Result Replay := do
  let event ← ofForeign (O.parseEvent row.2)
  let ordinal := (r.previous.map fun event => event.ordinal + 1).getD 0
  let preceding := (r.previous.map fun event => O.hash event.toJson).getD (O.hash plan.toJson)
  refuseIf (event.schemaVersion != 1 || event.ordinal != ordinal || event.ordinal != row.1 ||
      event.canonical != row.2 || event.planSha256 != O.hash plan.toJson ||
      event.previousSha256 != preceding || !operationId event.policyOperationId)
    "DAG checkpoint chain differs"
  refuseIf (r.previous.any fun last =>
      last.phase == .cancelled || r.cursor == graph.order.length)
    "DAG transition after terminal state"
  let (outputs, cursor) ← transition O objects plan graph r ordinal event
  pure { previous := some event, outputs, cursor }

/-! ## The database -/

/-- One row of `events`; `sequence` is the position. -/
structure Row where
  requestId : String
  ordinal : Nat
  canonical : String

/-- The tables. -/
structure Db where
  runs : Table String
  events : List Row

/-- The bound of `Connection::query` on a value. -/
def maxValue : Nat := 16384

/-- `SELECT ordinal,canonical FROM events WHERE request_id=? ORDER BY ordinal`. -/
def Db.chain (db : Db) (request : String) : List (Nat × String) :=
  ((db.events.filter fun row => row.requestId == request).map fun row =>
    (row.ordinal, row.canonical)).insertionSort fun a b => a.1 ≤ b.1

/-- The same, with the bounds of `query`. -/
def Db.selectChain (db : Db) (request : String) : Result (List (Nat × String)) := do
  let rows := db.chain request
  refuseIf (rows.length > 130) "native SQLite row bound exceeded"
  refuseIf (rows.any fun row => row.2.utf8ByteSize > maxValue) "invalid SQLite result value"
  pure rows

/-- `SELECT plan FROM runs WHERE request_id=?`. -/
def Db.selectPlan (db : Db) (request : String) : Result String := do
  let plan ← okOr db.runs[request]? "DAG run not found"
  refuseIf (plan.utf8ByteSize > maxValue) "invalid SQLite result value"
  pure plan

/-- What the store knows of itself. -/
structure Store where
  installation : String
  principal : String

/-- `Store::load`. -/
def Store.load (store : Store) (objects : Objects) (db : Db) (request : String) : Result Run := do
  refuseIf (!artifactIdentifier request) "invalid DAG request"
  let row ← db.selectPlan request
  let plan ← ofForeign (O.parsePlan row)
  let graph ← plan.validate O store.installation
  refuseIf (plan.canonical != row || plan.proposal.requestId != request ||
      plan.owner.map Owner.principal != some store.principal)
    "DAG plan canonical identity or security domain differs"
  let rows ← db.selectChain request
  let r ← rows.foldlM (replay O objects plan graph) { previous := none, outputs := ∅, cursor := 0 }
  let event ← okOr r.previous "DAG checkpoint missing"
  pure { plan, event, cursor := r.cursor, outputs := r.outputs }

/-- What happens outside the store during one `persist`: the answers of `check`, the objects at the
two replays, and the outcomes of the SQLite statements and of `sync_all`. -/
structure Env where
  check : Nat → Result Unit
  before : Objects
  inside : Objects
  begin : Result Unit
  insertRun : Result Unit
  insertEvent : Result Unit
  sync : Nat → Result Unit
  commit : Result Unit

/-- A transaction: rolled back when it is dropped without `COMMIT`. -/
def transact {α : Type} (m : Mut Db α) : Mut Db α := ExceptT.mk fun db =>
  match m.exec db with
  | (.ok a, db') => (.ok a, db')
  | (.error e, _) => (.error e, db)

theorem exec_transact {α : Type} (m : Mut Db α) (db : Db) :
    (transact m).exec db = match m.exec db with
      | (.ok a, db') => (.ok a, db')
      | (.error e, _) => (.error e, db) := rfl

/-- `INSERT INTO runs VALUES(?,?)`, after the capacity check. -/
def insertRun (env : Env) (plan : Plan) : Mut Db Unit := do
  let db ← get
  refuseIf (db.runs.size > maxRuns) "native SQLite row bound exceeded"
  refuseIf (db.runs.size ≥ maxRuns) "DAG run capacity exhausted"
  let request := plan.proposal.requestId
  refuseIf (request.utf8ByteSize > maxValue || plan.canonical.utf8ByteSize > maxValue)
    "oversized SQLite bound value"
  env.insertRun
  refuseIf (db.runs.contains request) "UNIQUE constraint failed: runs.request_id"
  set { db with runs := db.runs.insert request plan.canonical }

/-- `INSERT INTO events(request_id,ordinal,canonical) VALUES(?,?,?)`. -/
def insertEvent (env : Env) (plan : Plan) (event : Event) : Mut Db Unit := do
  let db ← get
  let request := plan.proposal.requestId
  refuseIf (request.utf8ByteSize > maxValue || event.canonical.utf8ByteSize > maxValue)
    "oversized SQLite bound value"
  env.insertEvent
  refuseIf (event.ordinal > 129) "CHECK constraint failed: ordinal BETWEEN 0 AND 129"
  refuseIf (db.events.any fun row => row.requestId == request && row.ordinal == event.ordinal)
    "UNIQUE constraint failed: events.request_id, events.ordinal"
  let row : Row := { requestId := request, ordinal := event.ordinal, canonical := event.canonical }
  set { db with events := db.events ++ [row] }

/-- The statements of `persist` from the event's `INSERT` to `COMMIT`. -/
def Store.extend (store : Store) (env : Env) (plan : Plan) (event : Event) : Mut Db Unit := do
  insertEvent env plan event
  let proposed ← store.load O env.inside (← get) plan.proposal.requestId
  refuseIf (proposed.plan != plan || proposed.event != event)
    "DAG proposed checkpoint failed semantic replay"
  env.check 1
  env.sync 0
  env.check 2
  env.commit

/-- The comparison of the latest checkpoint with the expected one. -/
def Store.compare (store : Store) (env : Env) (plan : Plan) (previous : Option Event) :
    Mut Db Unit := do
  if let some previous := previous then
    let run ← store.load O env.before (← get) plan.proposal.requestId
    refuseIf (run.event != previous) "DAG checkpoint compare-exchange conflict"

/-- `Store::persist` up to and including `tx.commit()`. -/
def Store.upToCommit (store : Store) (env : Env) (plan : Plan) (previous : Option Event)
    (event : Event) : Mut Db Unit := do
  let _ ← plan.validate O store.installation
  let owner ← plan.governor
  refuseIf (owner.principal != store.principal)
    "DAG checkpoint belongs to another principal domain"
  env.check 0
  store.compare O env plan previous
  env.begin
  transact do
    if previous.isNone then insertRun env plan
    store.extend O env plan event

/-- `Store::persist`. -/
def Store.persist (store : Store) (env : Env) (plan : Plan) (previous : Option Event)
    (event : Event) : Mut Db Unit := do
  store.upToCommit O env plan previous event
  env.sync 1
  env.check 3

end Outside

end LumaOS.Workflow
