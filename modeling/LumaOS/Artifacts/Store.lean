import LumaOS.Base.Pool
import LumaOS.Base.Table
import LumaOS.Json

/-!
# The reference artifact store

The tables of the developer store (`db.py`), its content-addressed objects, and the two calls that
write artifacts: `create_bytes` and `add_version` (`artifacts.py`). A call is cut where the source
is: one action for each SQLite transaction, and in `_store_blob` one for each file operation that
others can see or that can fail. What a call draws from outside (the clock, the random identifiers)
is part of its arguments.

JSON columns are kept as the values they encode, and the `result_json` of a receipt as the record
that both writers encode; no other writer of receipts is modelled. The constraints of the schema
(primary keys, `UNIQUE`) raise `IntegrityError`. Files are those of a POSIX system, where an object
is published by `os.link`.
-/

namespace LumaOS.Artifacts

open LumaOS.Base LumaOS.Text LumaOS.Json

/-! ## Tables -/

/-- A row of `artifacts`. -/
structure Artifact where
  artifactId : String
  owner : String
  filename : String
  mediaType : String
  currentVersion : Nat
  createdAt : String
  updatedAt : String
deriving DecidableEq

/-- A row of `artifact_versions`. -/
structure Version where
  artifactId : String
  version : Nat
  contentHash : String
  sizeBytes : Nat
  storagePath : String
  provenance : Value
  createdAt : String

/-- The `result_json` of an `artifact.commit` receipt. -/
structure CommitResult where
  artifactId : String
  version : Nat
  filename : String
  contentHash : String
  sizeBytes : Nat
deriving DecidableEq

/-- A row of `effect_receipts`. -/
structure EffectReceipt where
  receiptId : String
  owner : String
  workflowId : Option String
  stepId : Option String
  idempotencyKey : String
  effectType : String
  target : String
  status : String
  result : CommitResult
  createdAt : String
deriving DecidableEq

/-- `workflows.state`. -/
inductive WorkflowState where
  | validated
  | running
  | waitingUser
  | succeeded
  | failed
  | cancelled
deriving DecidableEq

/-- `workflow_steps.state`. -/
inductive StepState where
  | pending
  | running
  | waitingUser
  | succeeded
  | failed
  | cancelled
deriving DecidableEq

/-- A row of `workflow_steps`; no query reads its `updated_at`. -/
structure Step where
  workflowId : String
  stepId : String
  position : Nat
  state : StepState
  attempt : Nat
  error : Option Value

/-- An invoice row as `_normalize_manual_row` and the parsers return it. -/
structure Row where
  date : String
  month : String
  amount : String
  currency : String
  vendor : String
  source : String

/-- A row of `workflows`, under its `workflow_id`; no query here reads its type, key or times. -/
structure Workflow where
  owner : String
  request : Value
  state : WorkflowState
  attempt : Nat
  manualInput : Option (List Row)
  result : Option Value
  error : Option Value

/-- The database, and the objects by the hash that names them. -/
structure Database where
  artifacts : List Artifact
  versions : List Version
  receipts : List EffectReceipt
  workflows : Table Workflow
  steps : List Step
  objects : Table Bytes

/-- A store in which nothing was committed. -/
def Database.fresh (workflows : Table Workflow) (steps : List Step) : Database :=
  ⟨[], [], [], workflows, steps, ∅⟩

/-! ## Calls -/

/-- What the services raise. -/
inductive Failure where
  | notFound (message : String)
  | conflict (message : String)
  | validation (message : String)
  | runtime (message : String)
  | integrity (message : String)
  | needsManualInput (issues : List (String × String))
  | other (message : String)
deriving DecidableEq

/-- What an action of a call is. -/
inductive Action where
  | look
  | blob
  | publish
  | commit
  | begin
  | mark
  | succeed
  | wait
  | fail
  | manual
  | cancel
deriving DecidableEq

/-- The metadata a call returns. -/
structure Metadata where
  artifactId : String
  owner : String
  filename : String
  mediaType : String
  version : Nat
  currentVersion : Nat
  contentHash : String
  sizeBytes : Nat
  provenance : Value
  createdAt : String
  updatedAt : String

abbrev Call (α : Type) := Prog Action Database Failure α

/-- The body of one transaction. -/
abbrev Body (α : Type) := Proc Failure Database α

open Prog (transaction)

/-- The row of a query, or the exception for none. -/
def fetch {α : Type} (row : Option α) (e : Failure) : Except Failure α :=
  match row with
  | some a => .ok a
  | none => .error e

theorem fetch_eq_ok {α : Type} {row : Option α} {e : Failure} {a : α} :
    fetch row e = .ok a ↔ row = some a := by
  cases row with
  | none => simp [fetch]
  | some b => simp [fetch]

/-- An idempotency key in a condition: `None` and `""` are false. -/
def truthy (key : Option String) : Option String := key.filter fun k => !k.isEmpty

/-- `hashlib.sha256(content).hexdigest()`. -/
def contentHash (sha256 : Bytes → Vector UInt8 32) (content : Bytes) : String :=
  hex (sha256 content).toList

/-- `str(destination.relative_to(self.objects_dir))` for `_blob_path`. -/
def blobPath (hash : String) : String := "sha256/" ++ hash.take 2 ++ "/" ++ hash

namespace Database

/-- `SELECT * FROM effect_receipts WHERE owner=? AND idempotency_key=?`. -/
def receipt (db : Database) (owner key : String) : Option EffectReceipt :=
  db.receipts.find? fun r => r.owner == owner && r.idempotencyKey == key

/-- `SELECT * FROM artifacts WHERE artifact_id=? AND owner=?`. -/
def artifact (db : Database) (artifactId owner : String) : Option Artifact :=
  db.artifacts.find? fun a => a.artifactId == artifactId && a.owner == owner

/-- `SELECT * FROM artifact_versions WHERE artifact_id=? AND version=?`. -/
def version (db : Database) (artifactId : String) (version : Nat) : Option Version :=
  db.versions.find? fun v => v.artifactId == artifactId && v.version == version

/-- `_metadata`. -/
def metadata (a : Artifact) (v : Version) : Metadata where
  artifactId := a.artifactId
  owner := a.owner
  filename := a.filename
  mediaType := a.mediaType
  version := v.version
  currentVersion := a.currentVersion
  contentHash := v.contentHash
  sizeBytes := v.sizeBytes
  provenance := v.provenance
  createdAt := v.createdAt
  updatedAt := a.updatedAt

/-- `_get_with_connection`. -/
def getWithConnection (db : Database) (owner artifactId : String) (version : Option Nat) :
    Except Failure Metadata := do
  let artifact ← fetch (db.artifact artifactId owner) (Failure.notFound "Artifact was not found")
  let row ← fetch (db.version artifactId (version.getD artifact.currentVersion))
    (Failure.notFound "Artifact version was not found")
  pure (metadata artifact row)

/-- The query of `_assert_workflow_running`. -/
def assertWorkflowRunning (db : Database) (owner : String) : Option String → Except Failure Unit
  | none => .ok ()
  | some workflowId =>
    raiseIf (!(db.workflows[workflowId]?.any fun w => w.owner == owner && w.state == .running))
      (Failure.conflict "Workflow is no longer authorized to commit effects")

/-- `INSERT INTO artifacts`. -/
def insertArtifact (a : Artifact) : Body Unit := do
  let db ← get
  raiseIf (db.artifacts.any fun b => b.artifactId == a.artifactId)
    (Failure.integrity "UNIQUE constraint failed: artifacts.artifact_id")
  modify fun db => { db with artifacts := db.artifacts ++ [a] }

/-- `INSERT INTO artifact_versions`. -/
def insertVersion (v : Version) : Body Unit := do
  let db ← get
  raiseIf (!(db.artifacts.any fun a => a.artifactId == v.artifactId))
    (Failure.integrity "FOREIGN KEY constraint failed")
  raiseIf (db.versions.any fun w => w.artifactId == v.artifactId && w.version == v.version)
    (Failure.integrity
      "UNIQUE constraint failed: artifact_versions.artifact_id, artifact_versions.version")
  modify fun db => { db with versions := db.versions ++ [v] }

/-- `INSERT INTO effect_receipts`. -/
def insertReceipt (r : EffectReceipt) : Body Unit := do
  let db ← get
  raiseIf (db.receipts.any fun q => q.receiptId == r.receiptId)
    (Failure.integrity "UNIQUE constraint failed: effect_receipts.receipt_id")
  raiseIf (db.receipts.any fun q => q.owner == r.owner && q.idempotencyKey == r.idempotencyKey)
    (Failure.integrity
      "UNIQUE constraint failed: effect_receipts.owner, effect_receipts.idempotency_key")
  modify fun db => { db with receipts := db.receipts ++ [r] }

/-- `UPDATE artifacts SET current_version=?, updated_at=? WHERE artifact_id=?`. -/
def setCurrentVersion (db : Database) (artifactId : String) (version : Nat) (now : String) :
    Database :=
  { db with
    artifacts := db.artifacts.map fun a =>
      if a.artifactId == artifactId then { a with currentVersion := version, updatedAt := now }
      else a }

end Database

/-! ## Objects -/

/-- A file operation that nobody else sees; it can only fail. -/
def privately : Call Unit := transaction .blob (pure ())

/-- `os.link(temporary, destination)`; an object that is already there stays. -/
def link (hash : String) (content : Bytes) : Body Unit :=
  modify fun db =>
    if db.objects.contains hash then db
    else { db with objects := db.objects.insert hash content }

/-- `_store_blob`; the path it returns is `blobPath` of the hash. -/
def storeBlob (sha256 : Bytes → Vector UInt8 32) (content : Bytes) : Call String := do
  let hash := contentHash sha256 content
  privately
  let present ← transaction .blob do
    let db ← get
    pure (db.objects.contains hash)
  if present then
    let observed ← transaction .blob do
      let db ← get
      fetch db.objects[hash]? (Failure.other "FileNotFoundError")
    Prog.lift (raiseIf (contentHash sha256 observed != hash)
      (Failure.runtime "Existing content-addressed object failed integrity verification"))
    pure hash
  else
    -- the staged file: `mkstemp`, write, `fsync`, `chmod`
    privately
    transaction .publish (link hash content)
    -- `unlink` of the staged name and `fsync` of the directory
    privately
    pure hash

/-! ## `create_bytes` -/

/-- The arguments of `create_bytes`, with the clock and the identifiers it draws. -/
structure Create where
  owner : String
  content : Bytes
  filename : String
  mediaType : String
  provenance : Value
  idempotencyKey : Option String
  workflowId : Option String
  stepId : Option String
  now : String
  artifactId : String
  receiptId : String

/-- `_validate_metadata`. -/
def validateMetadata (owner filename mediaType : String) : Except Failure Unit := do
  raiseIf (owner.toList.all isSpace || owner.length > 200)
    (Failure.validation "A valid artifact owner is required")
  raiseIf (filename.isEmpty || filename.length > 255 || filename == "." || filename == ".." ||
      filename.toList.contains '/' || filename.toList.contains '\\')
    (Failure.validation "Artifact filename must be a simple filename")
  raiseIf (mediaType.isEmpty || mediaType.length > 200)
    (Failure.validation "A valid media type is required")

/-- `self.get(owner, artifact_id, version=version)`. -/
def getVersion (owner artifactId : String) (version : Nat) : Call Metadata :=
  transaction .look do
    let db ← get
    db.getWithConnection owner artifactId (some version)

/-- `self.receipts.find(owner, key)`, for a key that is given. -/
def findReceipt (owner : String) (key : Option String) : Call (Option EffectReceipt) :=
  match truthy key with
  | none => pure none
  | some key =>
    transaction .look do
      let db ← get
      pure (db.receipt owner key)

/-- `self._assert_workflow_running(owner, workflow_id)`. -/
def checkWorkflow (owner : String) (workflowId : Option String) : Call Unit :=
  match workflowId with
  | none => pure ()
  | some workflowId =>
    transaction .look do
      let db ← get
      db.assertWorkflowRunning owner (some workflowId)

/-- `effect_receipts` as both writers fill it. -/
def commitReceipt (receiptId owner : String) (workflowId stepId : Option String)
    (key : String) (result : CommitResult) (now : String) : EffectReceipt where
  receiptId := receiptId
  owner := owner
  workflowId := workflowId
  stepId := stepId
  idempotencyKey := key
  effectType := "artifact.commit"
  target := s!"artifact:{result.artifactId}:{result.version}"
  status := "SUCCEEDED"
  result := result
  createdAt := now

namespace Create

variable (c : Create)

def artifact : Artifact where
  artifactId := c.artifactId
  owner := c.owner
  filename := c.filename
  mediaType := c.mediaType
  currentVersion := 1
  createdAt := c.now
  updatedAt := c.now

def version (hash : String) : Version where
  artifactId := c.artifactId
  version := 1
  contentHash := hash
  sizeBytes := c.content.length
  storagePath := blobPath hash
  provenance := c.provenance
  createdAt := c.now

def result (hash : String) : CommitResult where
  artifactId := c.artifactId
  version := 1
  filename := c.filename
  contentHash := hash
  sizeBytes := c.content.length

/-- `idempotency_key or f"artifact:create:{artifact_id}"`. -/
def effectKey : String := (truthy c.idempotencyKey).getD s!"artifact:create:{c.artifactId}"

def receipt (hash : String) : EffectReceipt :=
  commitReceipt c.receiptId c.owner c.workflowId c.stepId c.effectKey (c.result hash) c.now

/-- The replay test of `create_bytes`. -/
def differs (hash : String) (previous : CommitResult) : Bool :=
  previous.contentHash != hash || previous.filename != c.filename

/-- The write transaction: the metadata of a concurrent winner, or `none` after a commit. -/
def commit (hash : String) : Body (Option Metadata) := do
  let db ← get
  db.assertWorkflowRunning c.owner c.workflowId
  match (truthy c.idempotencyKey).bind (db.receipt c.owner) with
  | some previous =>
    raiseIf (c.differs hash previous.result)
      (Failure.conflict "Idempotency key was already used for different artifact content")
    let won ← (db.getWithConnection c.owner previous.result.artifactId
      (some previous.result.version) : Except Failure Metadata)
    pure (some won)
  | none =>
    Database.insertArtifact c.artifact
    Database.insertVersion (c.version hash)
    Database.insertReceipt (c.receipt hash)
    pure none

/-- `create_bytes` after the first replay test. -/
def store (sha256 : Bytes → Vector UInt8 32) : Call Metadata := do
  checkWorkflow c.owner c.workflowId
  let hash ← storeBlob sha256 c.content
  let committed ← transaction .commit (c.commit hash)
  match committed with
  | some won => pure won
  | none => getVersion c.owner c.artifactId 1

/-- `create_bytes` (`artifacts.py:135-203`). -/
def call (sha256 : Bytes → Vector UInt8 32) : Call Metadata := do
  Prog.lift (validateMetadata c.owner c.filename c.mediaType)
  let found ← findReceipt c.owner c.idempotencyKey
  match found with
  | some receipt =>
    Prog.lift (raiseIf (c.differs (contentHash sha256 c.content) receipt.result)
      (Failure.conflict "Idempotency key was already used for different artifact content"))
    getVersion c.owner receipt.result.artifactId receipt.result.version
  | none => c.store sha256

end Create

/-! ## `add_version` -/

/-- The arguments of `add_version`, with the clock and the identifier it draws. -/
structure AddVersion where
  owner : String
  artifactId : String
  content : Bytes
  expectedCurrentVersion : Nat
  provenance : Value
  idempotencyKey : Option String
  workflowId : Option String
  stepId : Option String
  now : String
  receiptId : String

namespace AddVersion

variable (c : AddVersion)

def row (hash : String) (version : Nat) : Version where
  artifactId := c.artifactId
  version := version
  contentHash := hash
  sizeBytes := c.content.length
  storagePath := blobPath hash
  provenance := c.provenance
  createdAt := c.now

def result (hash filename : String) (version : Nat) : CommitResult where
  artifactId := c.artifactId
  version := version
  filename := filename
  contentHash := hash
  sizeBytes := c.content.length

/-- `idempotency_key or f"artifact:version:{artifact_id}:{version}"`. -/
def effectKey (version : Nat) : String :=
  (truthy c.idempotencyKey).getD s!"artifact:version:{c.artifactId}:{version}"

def receipt (hash filename : String) (version : Nat) : EffectReceipt :=
  commitReceipt c.receiptId c.owner c.workflowId c.stepId (c.effectKey version)
    (c.result hash filename version) c.now

/-- The replay test of `add_version`. -/
def differs (hash : String) (previous : CommitResult) : Bool :=
  previous.artifactId != c.artifactId || previous.contentHash != hash

/-- The write transaction: the metadata of a concurrent winner, or the version it committed. -/
def commit (hash : String) : Body (Metadata ⊕ Nat) := do
  let db ← get
  db.assertWorkflowRunning c.owner c.workflowId
  match (truthy c.idempotencyKey).bind (db.receipt c.owner) with
  | some previous =>
    raiseIf (c.differs hash previous.result)
      (Failure.conflict "Idempotency key was already used for a different artifact version")
    let won ← (db.getWithConnection c.owner c.artifactId (some previous.result.version) :
      Except Failure Metadata)
    pure (.inl won)
  | none =>
    let artifact ← (fetch (db.artifact c.artifactId c.owner)
      (Failure.notFound "Artifact was not found") : Except Failure Artifact)
    raiseIf (artifact.currentVersion != c.expectedCurrentVersion)
      (Failure.conflict "Artifact changed since it was read")
    let version := artifact.currentVersion + 1
    Database.insertVersion (c.row hash version)
    modify fun db => db.setCurrentVersion c.artifactId version c.now
    Database.insertReceipt (c.receipt hash artifact.filename version)
    pure (.inr version)

/-- `add_version` (`artifacts.py:205-277`). -/
def call (sha256 : Bytes → Vector UInt8 32) : Call Metadata := do
  checkWorkflow c.owner c.workflowId
  let hash ← storeBlob sha256 c.content
  let found ← findReceipt c.owner c.idempotencyKey
  match found with
  | some receipt =>
    Prog.lift (raiseIf (c.differs hash receipt.result)
      (Failure.conflict "Idempotency key was already used for a different artifact version"))
    getVersion c.owner c.artifactId receipt.result.version
  | none =>
    let committed ← transaction .commit (c.commit hash)
    match committed with
    | .inl won => pure won
    | .inr version => getVersion c.owner c.artifactId version

end AddVersion

end LumaOS.Artifacts
