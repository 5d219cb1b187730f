import LumaOS.Artifacts.Store

/-!
# The invoice workflow

`run`, `provide_manual_rows` and `cancel` of the invoice workflow (`workflows.py`), cut at their
transactions. Reading the sources, parsing and aggregation are pure work on what lies outside the
store; they enter as what a call finds (`Sources`), whatever it is.

Some updates of the state are guarded by it (`begin`, `succeed`), the others are not: `wait` and
`fail` at the end of a run, `manual` and `cancel` write whatever they find, although their calls
looked at the state in an earlier transaction.
-/

namespace LumaOS.Artifacts

open LumaOS.Base LumaOS.Text LumaOS.Json

open Prog (transaction)

/-- A source as `_read_sources` returns it. -/
structure Source where
  name : String
  format : String
  content : Bytes
  reference : Value

/-- A line of `_aggregate`. -/
structure Aggregate where
  month : String
  currency : String
  invoiceCount : Nat
  total : String

def Aggregate.toJson (a : Aggregate) : Value :=
  .object [("month", .string a.month), ("currency", .string a.currency),
    ("invoice_count", .number a.invoiceCount), ("total", .string a.total)]

def Metadata.toJson (m : Metadata) : Value :=
  .object [("artifact_id", .string m.artifactId), ("id", .string m.artifactId),
    ("owner", .string m.owner), ("filename", .string m.filename),
    ("media_type", .string m.mediaType), ("version", .number m.version),
    ("current_version", .number m.currentVersion), ("content_hash", .string m.contentHash),
    ("size_bytes", .number m.sizeBytes), ("provenance", m.provenance),
    ("created_at", .string m.createdAt), ("updated_at", .string m.updatedAt)]

/-- What a run finds in its sources and makes of them. -/
structure Sources where
  readSources : Value → Except Failure (List Source)
  extractSources : List Source → Value → Except Failure (List Row)
  normalizeManualRow : Nat → Row → Except Failure Row
  aggregate : List Row → Except Failure (List Aggregate)
  reportCsv : List Aggregate → Bytes
  reportMarkdown : List Row → List Aggregate → Bytes

/-- The clock and the identifiers that a commit of an artifact draws. -/
structure Drawn where
  now : String
  artifactId : String
  receiptId : String

/-- A workflow as `get` returns it. -/
structure View where
  workflow : Workflow
  steps : List Step

namespace Database

/-- `SELECT * FROM workflows WHERE workflow_id=? AND owner=?`. -/
def workflow (db : Database) (workflowId owner : String) : Option Workflow :=
  db.workflows[workflowId]?.filter fun w => w.owner == owner

/-- `UPDATE workflows SET … WHERE workflow_id=? AND owner=? AND …`; whether a row changed. -/
def updateWorkflow (workflowId owner : String) (guard : WorkflowState → Bool)
    (f : Workflow → Workflow) : Body Bool := do
  let db ← get
  match (db.workflow workflowId owner).filter fun w => guard w.state with
  | some w =>
    modify fun db => { db with workflows := db.workflows.insert workflowId (f w) }
    pure true
  | none => pure false

/-- `UPDATE workflow_steps SET … WHERE workflow_id=? AND …`. -/
def updateSteps (workflowId : String) (guard : Step → Bool) (f : Step → Step) : Body Unit :=
  modify fun db =>
    { db with
      steps := db.steps.map fun s => if s.workflowId == workflowId && guard s then f s else s }

end Database

/-- `self.get(owner, workflow_id)`. -/
def getWorkflow (owner workflowId : String) : Call View :=
  transaction .look do
    let db ← get
    let workflow ← (fetch (db.workflow workflowId owner)
      (Failure.notFound "Workflow was not found") : Except Failure Workflow)
    pure ⟨workflow, db.steps.filter fun s => s.workflowId == workflowId⟩

/-- `_step`. -/
def step (workflowId stepId : String) (state : StepState) (increment : Bool)
    (error : Option Value) : Call Unit :=
  transaction .mark do
    let db ← get
    let workflow ← (fetch db.workflows[workflowId]? (Failure.notFound "Workflow was not found") :
      Except Failure Workflow)
    raiseIf (workflow.state == .cancelled) (Failure.conflict "Workflow was cancelled")
    Database.updateSteps workflowId (fun s => s.stepId == stepId) fun s =>
      { s with state := state, attempt := s.attempt + increment.toNat, error := error }

/-! ## `run` -/

/-- The arguments of `run`, with what it finds and draws. -/
structure Run where
  owner : String
  workflowId : String
  sources : Sources
  csv : Drawn
  report : Drawn

namespace Run

variable (r : Run)

/-- The row of a workflow that starts to run. -/
def started (w : Workflow) : Workflow :=
  { w with state := .running, attempt := w.attempt + 1, error := none }

def provenance (sources : List Source) (rows : List Row) (manual : Option (List Row)) : Value :=
  .object [("workflow_id", .string r.workflowId), ("workflow_type", .string "invoice_report.v1"),
    ("source_refs", .array (sources.map (·.reference))), ("row_count", .number rows.length),
    ("manual_input", .bool manual.isSome)]

/-- One of the two `create_text` calls. -/
def output (drawn : Drawn) (content : Bytes) (filename mediaType key stepId : String)
    (provenance : Value) : Create where
  owner := r.owner
  content := content
  filename := filename
  mediaType := mediaType
  provenance := provenance
  idempotencyKey := some s!"workflow:{r.workflowId}:{key}"
  workflowId := some r.workflowId
  stepId := some stepId
  now := drawn.now
  artifactId := drawn.artifactId
  receiptId := drawn.receiptId

def csvOutput (content : Bytes) (provenance : Value) : Create :=
  r.output r.csv content "invoice-summary.csv" "text/csv; charset=utf-8" "invoice-summary-csv:v1"
    "publish_csv" provenance

def reportOutput (content : Bytes) (provenance : Value) : Create :=
  r.output r.report content "invoice-report.md" "text/markdown; charset=utf-8"
    "invoice-report-md:v1" "publish_report" provenance

/-- The rows of a run: the manual ones, normalised again, or those of the sources. -/
def rows (sources : List Source) (request : Value) : Option (List Row) → Except Failure (List Row)
  | some manual => manual.zipIdx.mapM fun row => r.sources.normalizeManualRow row.2 row.1
  | none => r.sources.extractSources sources (request.get "currency")

/-- One step of the workflow, from `RUNNING` to `SUCCEEDED`. -/
def during {α : Type} (stepId : String) (work : Call α) : Call α := do
  step r.workflowId stepId .running true none
  let a ← work
  step r.workflowId stepId .succeeded false none
  pure a

def succeeded (aggregates : List Aggregate) (rows : List Row) (csv report : Metadata)
    (w : Workflow) : Workflow :=
  { w with
    state := .succeeded
    result := some (.object [("row_count", .number rows.length),
      ("summary", .array (aggregates.map Aggregate.toJson)),
      ("artifacts", .array [csv.toJson, report.toJson])])
    error := none }

/-- The body of the `try`. -/
def body (sha256 : Bytes → Vector UInt8 32) (workflow : Workflow) : Call View := do
  let sources ← r.during "read_sources" (Prog.lift (r.sources.readSources workflow.request))
  let rows ← r.during "extract_rows"
    (Prog.lift (r.rows sources workflow.request workflow.manualInput))
  let aggregates ← r.during "aggregate" (Prog.lift (r.sources.aggregate rows))
  let provenance := r.provenance sources rows workflow.manualInput
  let csv ← r.during "publish_csv"
    ((r.csvOutput (r.sources.reportCsv aggregates) provenance).call sha256)
  let report ← r.during "publish_report"
    ((r.reportOutput (r.sources.reportMarkdown rows aggregates) provenance).call sha256)
  let _ ← transaction .succeed (Database.updateWorkflow r.workflowId r.owner (· == .running)
    (succeeded aggregates rows csv report))
  getWorkflow r.owner r.workflowId

def issuesJson (issues : List (String × String)) : Value :=
  .array (issues.map fun i => .object [("source", .string i.1), ("message", .string i.2)])

/-- The `manual_fallback` of a run that needs manual input. -/
def fallback (issues : List (String × String)) : Value :=
  .object [("message", .string
      "Some invoice data could not be parsed deterministically. Review and submit explicit rows."),
    ("issues", issuesJson issues),
    ("required_fields", .array [.string "date", .string "amount"]),
    ("optional_fields", .array [.string "currency", .string "vendor", .string "source"])]

def waiting (issues : List (String × String)) (w : Workflow) : Workflow :=
  { w with
    state := .waitingUser
    result := some (.object [("manual_fallback", fallback issues)])
    error := some (.object [("code", .string "manual_input_required")]) }

/-- `except NeedsManualInput`. -/
def needsManualInput (issues : List (String × String)) : Call View := do
  let _ ← transaction .wait
    (Database.updateWorkflow r.workflowId r.owner (fun _ => true) (waiting issues))
  step r.workflowId "extract_rows" .waitingUser false
    (some (.object [("issues", issuesJson issues)]))
  getWorkflow r.owner r.workflowId

/-- `str(exc)`. -/
def message : Failure → String
  | .notFound message => message
  | .conflict message => message
  | .validation message => message
  | .runtime message => message
  | .integrity message => message
  | .needsManualInput _ => "Invoice data needs manual review"
  | .other message => message

def failure (e : Failure) : Value :=
  .object [("code", .string "workflow_failed"), ("message", .string (message e))]

/-- `except Exception`. -/
def failed (e : Failure) : Call View := do
  let current ← getWorkflow r.owner r.workflowId
  if current.workflow.state == .cancelled then pure current
  else
    transaction .fail do
      let _ ← Database.updateWorkflow r.workflowId r.owner (fun _ => true) fun w =>
        { w with state := .failed, error := some (failure e) }
      Database.updateSteps r.workflowId (fun s => s.state == .running) fun s =>
        { s with state := .failed, error := some (failure e) }
    Prog.raise e

def handler : Failure → Call View
  | .needsManualInput issues => r.needsManualInput issues
  | e => r.failed e

/-- The states from which no run starts. -/
def closedTo (state : WorkflowState) : Bool :=
  state == .running || state == .succeeded || state == .cancelled

/-- `run` after its first look. -/
def start (sha256 : Bytes → Vector UInt8 32) (workflow : Workflow) : Call View := do
  let changed ← transaction .begin
    (Database.updateWorkflow r.workflowId r.owner (fun state => !closedTo state) started)
  if changed then (r.body sha256 workflow).tryCatch r.handler
  else getWorkflow r.owner r.workflowId

/-- `run` (`workflows.py:152-265`). -/
def call (sha256 : Bytes → Vector UInt8 32) : Call View := do
  let view ← getWorkflow r.owner r.workflowId
  match view.workflow.state with
  | .succeeded => pure view
  | .cancelled => Prog.raise (.conflict "Cancelled workflow cannot be run")
  | .running => Prog.raise (.conflict "Workflow is already running")
  | .waitingUser =>
    if view.workflow.manualInput.isNone then pure view else r.start sha256 view.workflow
  | _ => r.start sha256 view.workflow

end Run

/-! ## `provide_manual_rows` and `cancel` -/

/-- The states in which manual rows are taken. -/
def takesRows (state : WorkflowState) : Bool :=
  state == .waitingUser || state == .failed || state == .validated

/-- `provide_manual_rows` (`workflows.py:267-285`). -/
def provideManualRows (owner workflowId : String)
    (normalizeManualRow : Nat → Row → Except Failure Row) (rows : List Row) : Call View := do
  let view ← getWorkflow owner workflowId
  Prog.lift (raiseIf (!takesRows view.workflow.state)
    (Failure.conflict "Manual rows can only be supplied before a workflow succeeds"))
  Prog.lift (raiseIf (rows.isEmpty || rows.length > 10000)
    (Failure.validation "Provide between 1 and 10,000 invoice rows"))
  let normalized ← Prog.lift (rows.zipIdx.mapM fun row => normalizeManualRow row.2 row.1)
  transaction .manual do
    let _ ← Database.updateWorkflow workflowId owner (fun _ => true) fun w =>
      { w with manualInput := some normalized, state := .validated, result := none, error := none }
    Database.updateSteps workflowId
      (fun s => ["extract_rows", "aggregate", "publish_csv", "publish_report"].contains s.stepId)
      fun s => { s with state := .pending, error := none }
  getWorkflow owner workflowId

/-- `cancel` (`workflows.py:287-299`). -/
def cancel (owner workflowId : String) : Call View := do
  let view ← getWorkflow owner workflowId
  Prog.lift (raiseIf (view.workflow.state == .succeeded)
    (Failure.conflict "Completed workflow cannot be cancelled"))
  transaction .cancel do
    let _ ← Database.updateWorkflow workflowId owner (fun _ => true) fun w =>
      { w with state := .cancelled }
    Database.updateSteps workflowId
      (fun s => s.state == .pending || s.state == .running || s.state == .waitingUser)
      fun s => { s with state := .cancelled }
  getWorkflow owner workflowId

end LumaOS.Artifacts
