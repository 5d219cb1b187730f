import LumaOS.Artifacts.Commit
import LumaOS.Base.Alone
import Mathlib.Data.List.Dedup
import Mathlib.Algebra.GroupWithZero.Nat

/-!
# Pruning the objects

`prune_unreferenced_objects` (`state_transfer.py:277-325`) beside the two calls that write objects.
A `Disk` is the database with its objects and the staged files that `_store_blob` (`artifacts.py:
346-388`) makes in the object's own directory; `storeStaged` is that method with them, cut at every
file operation. The scan of `rglob` lists one directory at a time and looks at one file at a time.

Only files are kept: an empty directory is made and removed without anyone looking, and nothing
here makes a symbolic link. The row of a prune in `state_maintenance_runs` is read by nobody.
-/

namespace LumaOS.Artifacts

open LumaOS.Base LumaOS.Text

open Prog (transaction)

/-- The database, its objects, and the staged files by directory and name. -/
structure Disk where
  db : Database
  staged : List (String × String)

/-- What an action on the disk is. -/
inductive Touch where
  | look
  | sync
  | find (hash : String)
  | read (hash : String)
  | stage
  | link (hash : String)
  | unstage
  | commit
  | references
  | scan
  | unlink (hash : String)
  | record
deriving DecidableEq

abbrev DiskCall (α : Type) := Prog Touch Disk Failure α

/-- A query or a transaction of the tables. -/
def tables {α : Type} (call : Call α) : DiskCall α :=
  call.zoom Disk.db (fun db d => { d with db }) fun label =>
    if label = .commit then .commit else .look

/-- Look at the disk; it may have lost what is looked for. -/
def inspect {α : Type} (label : Touch) (f : Disk → Except Failure α) : DiskCall α :=
  transaction label do
    let d ← get
    f d

/-- A file operation that nobody else sees. -/
def syncing : DiskCall Unit := transaction .sync (pure ())

/-! ## `_store_blob` with its staged file -/

/-- `tempfile.mkstemp(prefix=".staged-", …)`, with the characters it draws. -/
def stagedName (drawn : String) : String := ".staged-" ++ drawn

/-- The directory of an object. -/
def directoryOf (hash : String) : String := String.ofList (hash.toList.take 2)

def stage (entry : String × String) : Proc Failure Disk Unit := do
  let d ← get
  raiseIf (d.staged.contains entry) (Failure.other "FileExistsError")
  modify fun d => { d with staged := entry :: d.staged }

/-- `os.unlink` of the staged file, if it is there. -/
def unstage (entry : String × String) : Proc Failure Disk Unit :=
  modify fun d => { d with staged := d.staged.filter fun e => e != entry }

/-- `os.link`; an object that is already there stays. -/
def linkStaged (hash : String) (content : Bytes) : Proc Failure Disk Unit :=
  modify fun d => { d with db := d.db.linked hash content }

/-- `_store_blob`. -/
def storeStaged (sha256 : Bytes → Vector UInt8 32) (drawn : String) (content : Bytes) :
    DiskCall String := do
  let hash := contentHash sha256 content
  -- `mkdir`
  syncing
  let present ← inspect (.find hash) fun d => pure (d.db.objects.contains hash)
  if present then do
    let observed ← inspect (.read hash) fun d =>
      fetch d.db.objects[hash]? (Failure.other "FileNotFoundError")
    Prog.lift (raiseIf (contentHash sha256 observed != hash)
      (Failure.runtime "Existing content-addressed object failed integrity verification"))
    pure hash
  else do
    let entry := (directoryOf hash, stagedName drawn)
    transaction .stage (stage entry)
    let publish : DiskCall Unit := do
      -- write, `fsync` and `chmod`
      syncing
      transaction (.link hash) (linkStaged hash content)
      transaction .unstage (unstage entry)
      -- `fsync` of the directory
      syncing
    publish.tryCatch fun e => do
      transaction .unstage (unstage entry)
      Prog.raise e
    pure hash

/-- `create_bytes`, on the disk. -/
def Create.stagedCall (c : Create) (sha256 : Bytes → Vector UInt8 32) (drawn : String) :
    DiskCall Metadata := do
  Prog.lift (validateMetadata c.owner c.filename c.mediaType)
  let found ← tables (findReceipt c.owner c.idempotencyKey)
  match found with
  | some receipt => do
    Prog.lift (raiseIf (c.differs (contentHash sha256 c.content) receipt.result)
      (Failure.conflict "Idempotency key was already used for different artifact content"))
    tables (getVersion c.owner receipt.result.artifactId receipt.result.version)
  | none => do
    tables (checkWorkflow c.owner c.workflowId)
    let hash ← storeStaged sha256 drawn c.content
    let committed ← tables (transaction .commit (c.commit hash))
    match committed with
    | some won => pure won
    | none => tables (getVersion c.owner c.artifactId 1)

/-- `add_version`, on the disk. -/
def AddVersion.stagedCall (c : AddVersion) (sha256 : Bytes → Vector UInt8 32) (drawn : String) :
    DiskCall Metadata := do
  tables (checkWorkflow c.owner c.workflowId)
  let hash ← storeStaged sha256 drawn c.content
  let found ← tables (findReceipt c.owner c.idempotencyKey)
  match found with
  | some receipt => do
    Prog.lift (raiseIf (c.differs hash receipt.result)
      (Failure.conflict "Idempotency key was already used for a different artifact version"))
    tables (getVersion c.owner c.artifactId receipt.result.version)
  | none => do
    let committed ← tables (transaction .commit (c.commit hash))
    match committed with
    | .inl won => pure won
    | .inr version => tables (getVersion c.owner c.artifactId version)

/-! ## `prune_unreferenced_objects` -/

/-- The digests that artifact versions reference. -/
def Database.hashes (db : Database) : List String := db.versions.map (·.contentHash)

/-- The directories that hold a file. -/
def Disk.directories (d : Disk) : List String :=
  (d.db.objects.keys.map directoryOf ++ d.staged.map Prod.fst).dedup

/-- The files of a directory. -/
def Disk.names (d : Disk) (directory : String) : List String :=
  (d.db.objects.keys.filter fun hash => directoryOf hash == directory) ++
    (d.staged.filter fun e => e.1 == directory).map Prod.snd

/-- `path.is_file()`. -/
def Disk.isFile (d : Disk) (directory name : String) : Bool := (d.names directory).contains name

/-- A file that may go, with its `st_size`. -/
structure Candidate where
  name : String
  bytes : Nat

/-- One file of the scan. -/
def scanFile (referenced : List String) (directory : String) (found : List Candidate)
    (name : String) : DiskCall (List Candidate) := do
  let present ← inspect .scan fun d => pure (d.isFile directory name)
  if !present then pure found else do
  Prog.lift (raiseIf (!isHash name)
    (Failure.validation "Object store contains a non-canonical file"))
  if referenced.contains name then pure found else do
  let content ← inspect .scan fun d =>
    fetch d.db.objects[name]? (Failure.other "FileNotFoundError")
  pure (found ++ [⟨name, content.length⟩])

/-- One directory of the scan. -/
def scanDirectory (referenced : List String) (found : List Candidate) (directory : String) :
    DiskCall (List Candidate) := do
  let names ← inspect .scan fun d => pure (d.names directory)
  names.foldlM (scanFile referenced directory) found

/-- `path.unlink()`. -/
def unlink (hash : String) : Proc Failure Disk Unit := do
  let d ← get
  raiseIf (!d.db.objects.contains hash) (Failure.other "FileNotFoundError")
  modify fun d => { d with db := { d.db with objects := d.db.objects.erase hash } }

/-- What a prune returns. -/
structure Report where
  mode : String
  objectCount : Nat
  reclaimableBytes : Nat
  objects : List String

/-- `prune_unreferenced_objects`. -/
def prune (apply : Bool) : DiskCall Report := do
  let referenced ← inspect .references fun d => pure d.db.hashes
  let directories ← inspect .scan fun d => pure d.directories
  let candidates ← directories.foldlM (scanDirectory referenced) []
  let removed := if apply then candidates else []
  removed.foldlM (fun _ c => transaction (.unlink c.name) (unlink c.name)) ()
  transaction .record (pure ())
  pure {
    mode := if apply then "applied" else "dry_run"
    objectCount := candidates.length
    reclaimableBytes := (candidates.map (·.bytes)).sum
    objects := candidates.map fun c => blobPath c.name
  }

/-! ## Calls on the disk -/

/-- A call, with the characters that `mkstemp` draws. -/
inductive DiskRequest where
  | create (c : Create) (drawn : String)
  | addVersion (c : AddVersion) (drawn : String)
  | prune (apply : Bool)

/-- What a call returns. -/
inductive DiskAnswer where
  | metadata (m : Metadata)
  | report (r : Report)

def DiskRequest.call (sha256 : Bytes → Vector UInt8 32) : DiskRequest → DiskCall DiskAnswer
  | create c drawn => do
    let m ← c.stagedCall sha256 drawn
    pure (.metadata m)
  | addVersion c drawn => do
    let m ← c.stagedCall sha256 drawn
    pure (.metadata m)
  | prune apply => do
    let r ← Artifacts.prune apply
    pure (.report r)

end LumaOS.Artifacts
