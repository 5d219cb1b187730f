import LumaOS.Publication.Receipt
import LumaOS.Base.Table

/-!
# The native artifact store

Model of `artifacts.rs:125-203` and `:300-630`: the three directories of the store, its inventory,
`publish`, `reconcile`, `abort` and `status`. A preparation is a directory under `pending`; a rename
moves it whole to `committed` or to `retained`.

A method is code on the disk that can be cut off at any call. The bytes of a member reach it one at
a time, so an interruption inside `write_member` leaves any prefix. The authorization that a caller
hands in, the free space and the syncs are calls too: each of them may fail. Members are written by
this process alone, so their owner, mode and links are not part of the model.
-/

namespace LumaOS.Publication

open LumaOS.Base LumaOS.Text LumaOS.Json

/-- The members of a pair's directory, by name. -/
abbrev Dir := Table Bytes

/-- The directories of the store. -/
structure Disk where
  committed : Table Dir
  pending : Table Dir
  retained : Table Dir

/-- What `initialize` leaves. -/
def Disk.initialized : Disk := ⟨∅, ∅, ∅⟩

/-- What a call shows: `f_bavail` and `f_frsize` of the file system. -/
structure Space where
  available : UInt64
  fragment : UInt64

def noEntry : String := "No such file or directory (os error 2)"
def fileExists : String := "File exists (os error 17)"

/-! ## Reading -/

/-- `child_directory`. -/
def childDirectory (parent : Table Dir) (request : String) : Result Dir :=
  okOr parent[request]? noEntry

/-- `names`. -/
def names {β : Type} (dir : Table β) (max : Nat) : Result (List String) := do
  refuseIf (dir.size > max) "native artifact inventory exceeds capacity"
  pure dir.keys

/-- `read_member`. -/
def readMember (dir : Dir) (name : String) (limit : Nat) : Result Bytes := do
  let bytes ← okOr dir[name]? noEntry
  refuseIf (bytes.length > limit) "unsafe or oversized native artifact member"
  pure bytes

section Reading

variable (O : Outside) (installation : String)

/-- `Store::pair`. -/
def pair (parent : Table Dir) (request : String) : Result (Receipt × Bytes) := do
  refuseIf (!identifier request) "invalid native artifact request"
  let dir ← childDirectory parent request
  let listed ← names dir 2
  refuseIf (listed != ["receipt.json", "report.json"])
    "incomplete native artifact pair; retain preparation"
  let bytes ← readMember dir "receipt.json" maxReceipt
  let receipt ← O.fromSlice bytes
  receipt.validate installation request
  refuseIf (receipt.bytes != bytes) "noncanonical artifact receipt"
  let content ← readMember dir "report.json" maxContent
  refuseIf (content.length != receipt.contentBytes.toNat ||
      O.digest content != receipt.contentSha256)
    "native artifact content integrity failure"
  pure (receipt, content)

/-- The limit of a member of a preparation. -/
def memberLimit (name : String) : Result Nat :=
  if name = "report.json" then pure maxContent
  else if name = "receipt.json" then pure maxReceipt
  else refuse "unknown artifact preparation member; preserve state"

/-- One member of `Store::observation`; the accumulator is `(members, total)`. -/
def observeMember (dir : Dir) (acc : List Value × Nat) (name : String) :
    Result (List Value × Nat) := do
  let limit ← memberLimit name
  let bytes ← readMember dir name limit
  -- the keys of a `serde_json::Value` come out in their order
  let member := .object [("bytes", .number bytes.length), ("name", .string name),
    ("sha256", .string (O.digest bytes))]
  pure (acc.1 ++ [member], acc.2 + bytes.length)

/-- `Store::observation`. -/
def observation (parent : Table Dir) (request : String) : Result (Value × Nat) := do
  refuseIf (!identifier request) "invalid artifact preparation identity"
  let dir ← childDirectory parent request
  let listed ← names dir 2
  let (members, total) ← listed.foldlM (observeMember O dir) ([], 0)
  pure (.object [("installation", .string installation), ("members", .array members),
    ("request_id", .string request)], total)

/-- One committed pair of `Store::inventory`; the accumulator is `(receipts, total)`. The total
stays below `2 ^ 27`, so the checked additions of the source do not fail. -/
def committedStep (d : Disk) (acc : List Receipt × Nat) (request : String) :
    Result (List Receipt × Nat) := do
  let (receipt, _) ← pair O installation d.committed request
  let total := acc.2 + receipt.storedBytes
  refuseIf (total > maxTotal) "native artifact byte capacity exhausted"
  pure (acc.1 ++ [receipt], total)

/-- One retained preparation of `Store::inventory`. -/
def retainedStep (d : Disk) (receipts : List Receipt) (total : Nat) (request : String) :
    Result Nat := do
  refuseIf (receipts.any fun r => r.requestId == request)
    "artifact identity appears in multiple states"
  let (_, bytes) ← observation O installation d.retained request
  refuseIf (total + bytes > maxTotal) "retained artifact capacity exhausted"
  pure (total + bytes)

/-- `Store::inventory`: the receipts, the pending request and the bytes in use. -/
def inventory (d : Disk) : Result (List Receipt × List String × Nat) := do
  let committed ← names d.committed maxRecords
  let (receipts, total) ← committed.foldlM (committedStep O installation d) ([], 0)
  let retained ← names d.retained maxRecords
  refuseIf (receipts.length + retained.length > maxRecords)
    "native artifact record capacity exhausted"
  let total ← retained.foldlM (retainedStep O installation d receipts) total
  let pending ← names d.pending 1
  refuseIf (pending.any fun id =>
      !identifier id || (receipts.any fun r => r.requestId == id) || retained.contains id)
    "unknown artifact preparation"
  pure (receipts, pending, total)

/-- The pending preparation, as `Store::status` shows it. -/
def proposal (d : Disk) (request : String) : Value :=
  let abortReview := match observation O installation d.pending request with
    | .ok (seen, _) => .string (O.digest (toVec seen))
    | .error _ => .null
  match pair O installation d.pending request with
  | .ok (receipt, _) => .object [("abort_review_sha256", abortReview),
      ("receipt", sorted receipt.toJson), ("request_id", .string request),
      ("review_sha256", .string (receipt.review O)), ("state", .string "prepared")]
  | .error _ => .object [("abort_review_sha256", abortReview), ("request_id", .string request),
      ("review_sha256", .null), ("state", .string "incomplete")]

/-- A retained preparation, as `Store::status` shows it. -/
def retainedEntry (d : Disk) (request : String) : Result Value := do
  let (seen, _) ← observation O installation d.retained request
  pure (.object [("request_id", .string request),
    ("review_sha256", .string (O.digest (toVec seen)))])

/-- `Store::status`. -/
def status (d : Disk) : Result Value := do
  let (receipts, pending, total) ← inventory O installation d
  let listed ← names d.retained maxRecords
  let retained ← listed.mapM (retainedEntry O installation d)
  pure (.object [("environment", .string "lab"), ("gate_closing", .bool false),
    ("pending", optional (proposal O installation d) pending.head?),
    ("product_admin_active", .bool false),
    ("records", .array (receipts.map fun r => sorted r.toJson)), ("retained", .array retained),
    ("rollback_protected", .bool false), ("schema_version", .number 1),
    ("storage_bytes", .number total)])

end Reading

/-! ## Writing -/

/-- A method of the store. -/
abbrev Method (α : Type) := Calls Disk Space α

/-- A look at the disk. -/
def look {α : Type} (f : Disk → Result α) : Method α := call fun _ => do
  let d ← get
  f d

/-- `sync_all` of a file or a directory; the visible contents do not change. -/
def syncAll : Method Unit := call fun _ => pure ()

/-- What the caller's `authorize` answers: it fails, or it lets the method go on. -/
def authorize : Method Unit := call fun _ => pure ()

/-- The check of the free space in `publish`. -/
def spaceSuffices (space : Space) (stored : Nat) : Result Unit := do
  let free := space.available.toNat * space.fragment.toNat
  refuseIf (free ≥ 2 ^ 64) "artifact space observation overflow"
  refuseIf (free < stored + freeFloor) "insufficient native artifact storage reserve"

/-- `mkdirat` in `pending`. -/
def makePending (request : String) : Mut Disk Unit := do
  let d ← get
  refuseIf (d.pending.contains request) fileExists
  set { d with pending := d.pending.insert request ∅ }

/-- `mkdir_at` in `pending`. -/
def mkdirAt (request : String) : Method Unit := do
  call fun _ => makePending request
  syncAll

/-- `openat` with `O_CREAT | O_EXCL`. -/
def createMember (request name : String) : Mut Disk Unit := do
  let d ← get
  let dir ← childDirectory d.pending request
  refuseIf (dir.contains name) fileExists
  set { d with pending := d.pending.insert request (dir.insert name []) }

/-- One more byte of a member. -/
def writeByte (request name : String) (byte : UInt8) : Mut Disk Unit :=
  modify fun d => { d with
    pending := d.pending.modify request fun dir => dir.modify name fun bytes => bytes ++ [byte] }

/-- `write_member`. -/
def writeMember (request name : String) (bytes : Bytes) : Method Unit := do
  call fun _ => createMember request name
  bytes.forM fun byte => call fun _ => writeByte request name byte
  syncAll

/-- `renameat2` with `RENAME_NOREPLACE` from `pending` to `committed`. -/
def renameCommitted (request : String) : Mut Disk Unit := do
  let d ← get
  let dir ← okOr d.pending[request]? "native artifact publication refused; retain preparation"
  refuseIf (d.committed.contains request)
    "native artifact publication refused; retain preparation"
  set { d with
    committed := d.committed.insert request dir
    pending := d.pending.erase request }

/-- `renameat2` with `RENAME_NOREPLACE` from `pending` to `retained`. -/
def renameRetained (request : String) : Mut Disk Unit := do
  let d ← get
  let dir ← okOr d.pending[request]? "artifact abort outcome requires reinspection"
  refuseIf (d.retained.contains request) "artifact abort outcome requires reinspection"
  set { d with
    retained := d.retained.insert request dir
    pending := d.pending.erase request }

/-- `open_at` of a member for its sync. -/
def syncMember (dir : Dir) (name : String) : Method Unit := do
  let _ ← look fun _ => okOr dir[name]? noEntry
  syncAll

/-- `Store::durable`. -/
def durable (request : String) : Method Unit := do
  let dir ← look fun d => childDirectory d.committed request
  ["report.json", "receipt.json"].forM (syncMember dir)
  syncAll
  syncAll
  syncAll
  syncAll

/-- `Store::rename_pair`. -/
def renamePair (request : String) : Method Unit := call fun _ => renameCommitted request

section Methods

variable (O : Outside) (installation : String)

/-- The part of `publish` that prepares and commits a new pair. -/
def prepare (receipt : Receipt) (content : Bytes) : Method Bool := do
  mkdirAt receipt.requestId
  writeMember receipt.requestId "report.json" content
  writeMember receipt.requestId "receipt.json" receipt.bytes
  syncAll
  syncAll
  let _ ← look fun d => pair O installation d.pending receipt.requestId
  authorize
  renamePair receipt.requestId
  durable receipt.requestId
  pure false

/-- `Store::publish`. -/
def publish (receipt : Receipt) (content : Bytes) : Method Bool := do
  receipt.validate installation receipt.requestId
  refuseIf (content.length != receipt.contentBytes.toNat ||
      O.digest content != receipt.contentSha256)
    "native artifact request content mismatch"
  authorize
  let (receipts, pending, total) ← look (inventory O installation)
  let retained ← look fun d => names d.retained maxRecords
  refuseIf (retained.contains receipt.requestId)
    "artifact request was retained after abort; use a new request"
  match receipts.find? fun r => r.requestId == receipt.requestId with
  | some previous => do
    refuseIf (previous != receipt) "native artifact idempotency conflict"
    authorize
    durable receipt.requestId
    pure true
  | none => do
    refuseIf (!pending.isEmpty) "artifact preparation requires reviewed reconciliation"
    refuseIf (receipts.length + retained.length ≥ maxRecords ||
        total + receipt.storedBytes > maxTotal)
      "native artifact capacity exhausted"
    call fun space => spaceSuffices space receipt.storedBytes
    prepare O installation receipt content

/-- `Store::reconcile`. -/
def reconcile (request review : String) : Method Receipt := do
  refuseIf (!identifier request || !isHash review) "invalid artifact reconciliation review"
  let (receipts, pending, total) ← look (inventory O installation)
  match receipts.find? fun r => r.requestId == request with
  | some receipt => do
    refuseIf (!pending.isEmpty || receipt.review O != review)
      "artifact reconciliation state conflict"
    authorize
    durable request
    pure receipt
  | none => do
    refuseIf (pending != [request]) "artifact preparation does not match review"
    let (receipt, _) ← look fun d => pair O installation d.pending request
    refuseIf (receipt.review O != review) "artifact preparation changed since review"
    let retained ← look fun d => names d.retained maxRecords
    refuseIf (receipts.length + retained.length ≥ maxRecords ||
        total + receipt.storedBytes > maxTotal)
      "native artifact recovery exceeds capacity"
    authorize
    renamePair request
    durable request
    pure receipt

/-- The end of `abort`: everything that was retained is synced. -/
def settleRetained (request : String) : Method Unit := do
  let dir ← look fun d => childDirectory d.retained request
  let listed ← look fun _ => names dir 2
  listed.forM (syncMember dir)
  syncAll
  syncAll
  syncAll
  syncAll

/-- `Store::abort`. -/
def abort (request review : String) : Method Unit := do
  refuseIf (!identifier request || !isHash review) "invalid artifact abort review"
  let (receipts, pending, total) ← look (inventory O installation)
  refuseIf (receipts.any fun r => r.requestId == request)
    "acknowledged artifact cannot be aborted"
  let retained ← look fun d => names d.retained maxRecords
  let alreadyRetained := retained.any fun r => r == request
  refuseIf (!alreadyRetained && pending != [request])
    "artifact abort does not match current preparation"
  let (seen, bytes) ← look fun d =>
    observation O installation (if alreadyRetained then d.retained else d.pending) request
  refuseIf (!alreadyRetained &&
      (receipts.length + retained.length ≥ maxRecords || total + bytes > maxTotal))
    "artifact retention exceeds capacity; preserve preparation"
  refuseIf (O.digest (toVec seen) != review) "artifact preparation changed since abort review"
  authorize
  if alreadyRetained then pure () else call fun _ => renameRetained request
  settleRetained request

end Methods

end LumaOS.Publication
