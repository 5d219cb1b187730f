import LumaOS.Policy.Links
import Mathlib.Algebra.GroupWithZero.Nat

/-!
# The policy evidence store

Model of `policy_decisions.rs:556-1126`, `:1356-1515` and `:1724-1762`: the directory of immutable
record files, the archives of closed operations, the inventory that every call starts with, the
append of a record and of a batch of decisions, and the retention of a closed operation (`archive`,
then one `unlink_archived` for each of its records).

A record file is named by the id it holds and is the canonical text of its record, which the
inventory checks, so a member of the root is a record under a name. An archive is read as bytes:
`fromSlice` is `serde_json::from_slice`. What the machine answers during a call (`Storage`) is an
argument of it: the lock, the directories beside the records, the archives whose pinned inode is
unchanged, the free space, and whether the file was published and then synced.
-/

namespace LumaOS.Policy

open LumaOS.Base LumaOS.Text LumaOS.Json LumaOS.Governance

def maxRecords : Nat := 16384
def maxRecord : Nat := 131072
def maxBytes : Nat := 16 * 1024 * 1024
def maxArchive : Nat := 8 * 1024 * 1024
def maxArchives : Nat := 1024
def maxArchiveBytes : Nat := 512 * 1024 * 1024

variable {ε : Type}

/-- `policy_decisions::Archive`. -/
structure Archive (ε : Type) where
  schemaVersion : UInt32
  installation : String
  operationId : String
  records : List (Record ε)
deriving DecidableEq

def Archive.toJson (O : Outside ε) (a : Archive ε) : Value :=
  .object [("schema_version", u32Json a.schemaVersion), ("installation", .string a.installation),
    ("operation_id", .string a.operationId), ("records", .array (a.records.map (Record.toJson O)))]

/-- `serde_json::to_vec` of a record, and of an archive. -/
def Record.bytes (O : Outside ε) (r : Record ε) : Bytes := toVec (r.toJson O)
def Archive.bytes (O : Outside ε) (a : Archive ε) : Bytes := toVec (a.toJson O)

/-- The record ends its operation. -/
def Record.closes (r : Record ε) : Bool := r.payload matches .operationFinished _

/-- One member of the first loop of `Archive::validate`. -/
def Archive.memberStep (O : Outside ε) (a : Archive ε) (records : Table (Record ε))
    (r : Record ε) : Result (Table (Record ε)) := do
  r.validate O
  refuseIf (r.installation != a.installation || r.operationId != a.operationId ||
      records.contains r.recordId)
    "policy archive member identity substitution"
  pure (records.insert r.recordId r)

/-- `Archive::validate`. -/
def Archive.validate (O : Outside ε) (a : Archive ε) : Result Unit := do
  refuseIf (a.schemaVersion != 1 || !isHash a.installation || !isId a.operationId ||
      a.records.isEmpty || a.records.length > maxRecords)
    "invalid policy archive identity or capacity"
  let records ← a.records.foldlM (a.memberStep O) ∅
  validateRecordLinks O records
  refuseIf (a.records.countP Record.closes != 1) "active policy operation cannot be retained"
  refuseIf (!ascending (a.records.map Record.recordId)) "noncanonical policy archive ordering"

/-- `policy_decisions::archive_name`. -/
def archiveName (name : String) : Result (String × String) := do
  let base ← okOr ((name.toList.dropPrefix? "archive-".toList).bind fun v =>
      v.dropSuffix? ".json".toList)
    "invalid policy archive name"
  refuseIf (!base.contains '-') "invalid policy archive name"
  let operation := String.ofList (base.takeWhile (· != '-'))
  let digest := String.ofList ((base.dropWhile (· != '-')).drop 1)
  refuseIf (!isId operation || !isHash digest) "invalid policy archive identity"
  pure (operation, digest)

/-- The name `Store::archive` gives the archive of these bytes. -/
def archiveFile (O : Outside ε) (operation : String) (bytes : Bytes) : String :=
  "archive-" ++ operation ++ "-" ++ hex (O.sha256 bytes) ++ ".json"

/-- `policy_decisions::Store`, with the directories it holds open. -/
structure Store (ε : Type) where
  installation : String
  root : Table (Record ε)
  archives : Table Bytes

/-- What the machine answers during a call. -/
structure Storage where
  lock : Result Unit
  children : Result Unit
  cached : String → Bool
  space : Option (UInt64 × UInt64)
  publish : Result Unit
  settle : Result Unit

section Inventory

variable [DecidableEq ε] (O : Outside ε) (fromSlice : Bytes → Result (Archive ε))
  (installation : String)

/-! ## The archives -/

/-- The full validation of an archive's bytes in `Store::archive_inventory`. -/
def readArchive (operation digest : String) (bytes : Bytes) : Result (Archive ε) := do
  refuseIf (hex (O.sha256 bytes) != digest) "policy archive byte digest changed"
  let archive ← fromSlice bytes
  archive.validate O
  refuseIf (archive.installation != installation || archive.operationId != operation ||
      archive.bytes O != bytes)
    "policy archive substituted installation, operation or canonical content"
  pure archive

/-- The originals that outlived an interrupted unlink are those of the archive; the archive owns
their part of the graph. -/
def projectResidual (archive : Archive ε) (operation : String) (active : Table (Record ε)) :
    Result (Table (Record ε)) := do
  refuseIf (archive.records.any fun r => active[r.recordId]?.any fun old => old != r)
    "active policy member differs from retained archive"
  let original : Table (Record ε) := archive.records.foldl (fun t r => t.insert r.recordId r) ∅
  refuseIf ((Table.values active).any fun r =>
      r.operationId == operation && original[r.recordId]? != some r)
    "active policy residual was not in the exact closed archive"
  pure (active.filter fun _ r => r.operationId != operation)

/-- What `Store::archive_inventory` carries from one archive to the next. -/
structure Sweep (ε : Type) where
  total : Nat
  operations : Table String
  active : Table (Record ε)

/-- One archive of `Store::archive_inventory`. -/
def archiveStep (cached : String → Bool) (acc : Sweep ε) (file : String × Bytes) :
    Result (Sweep ε) := do
  let (operation, digest) ← archiveName file.1
  refuseIf (file.2.isEmpty || file.2.length > maxArchive) "unsafe immutable archive cache candidate"
  let total := acc.total + file.2.length
  refuseIf (total > maxArchiveBytes) "policy archive capacity or digest failure"
  refuseIf (acc.operations.contains operation) "duplicate retained policy operation"
  let operations := acc.operations.insert operation file.1
  let residual := (Table.values acc.active).any fun r => r.operationId == operation
  if !residual && cached file.1 then pure ⟨total, operations, acc.active⟩ else do
  let archive ← readArchive O fromSlice installation operation digest file.2
  if residual then do
    let active ← projectResidual archive operation acc.active
    pure ⟨total, operations, active⟩
  else pure ⟨total, operations, acc.active⟩

/-- `Store::archive_inventory`: the archived operations and the active records. -/
def archiveInventory (cached : String → Bool) (archives : Table Bytes)
    (active : Table (Record ε)) : Result (Table String × Table (Record ε)) := do
  refuseIf (archives.size > maxArchives) "native artifact inventory exceeds capacity"
  let found ← archives.toList.foldlM (archiveStep O fromSlice installation cached) ⟨0, ∅, active⟩
  pure (found.operations, found.active)

/-! ## The inventory -/

/-- One record file of `Store::inventory`; the accumulator is `(total, records)`. -/
def recordStep (acc : Nat × Table (Record ε)) (file : String × Record ε) :
    Result (Nat × Table (Record ε)) := do
  refuseIf (!isId file.1) "unknown policy evidence member; preserve and inspect"
  let length := (file.2.bytes O).length
  refuseIf (length > maxRecord) "unsafe or oversized native artifact member"
  file.2.validate O
  refuseIf (file.2.recordId != file.1 || file.2.installation != installation)
    "noncanonical policy evidence member"
  refuseIf (acc.1 + length > maxBytes) "policy evidence capacity exceeded"
  pure (acc.1 + length, acc.2.insert file.1 file.2)

/-- `Store::inventory`. -/
def Store.inventory (M : Storage) (s : Store ε) : Result (Table (Record ε)) := do
  refuseIf (s.root.size > maxRecords) "native artifact inventory exceeds capacity"
  let (_, records) ← s.root.toList.foldlM (recordStep O s.installation) (0, ∅)
  M.children
  let (_, active) ← archiveInventory O fromSlice s.installation M.cached s.archives records
  validateRecordLinks O active
  pure active

end Inventory

/-! ## Appending a record -/

section Append

variable [DecidableEq ε] (O : Outside ε) (fromSlice : Bytes → Result (Archive ε))

/-- A scope of the store's own retention, which may use the reserved capacity. -/
def retentionScope (scope : String × Use) : Bool :=
  let usage := scope.2
  (usage.action == .read && usage.selector.kind == .file &&
      usage.selector.id == "policy-archive-inspect") ||
    ((usage.action == .export || usage.action == .delete) && usage.selector.kind == .artifact &&
      usage.selector.id == "policy-archive") ||
    (usage.action == .retain && usage.selector.kind == .resource &&
      ["policy-evidence", "policy-pending", "policy-archive-mark",
        "policy-archive-history"].contains usage.selector.id)

/-- The operation was started for retention alone. -/
def retention (records : Table (Record ε)) (operation : String) : Bool :=
  ((Table.values records).findSome? fun r =>
    if r.operationId == operation then r.scopes?.map (·.all retentionScope) else none).getD false

/-- The record only ends or denies. -/
def Record.terminal (r : Record ε) : Bool :=
  match r.payload with
  | .effectFinished .. => true
  | .operationFinished _ => true
  | .decision d => d.outcome == .deny
  | _ => false

/-- One file of the physical count of `Store::write`. -/
def memberCount (recordId : String) (acc : Nat × Nat) (file : String × Record ε) :
    Result (Nat × Nat) := do
  refuseIf (!isId file.1) "unknown physical policy member"
  refuseIf (file.1 == recordId) "policy record already exists"
  let length := (file.2.bytes O).length
  refuseIf (length > maxRecord) "invalid immutable physical policy member"
  pure (acc.1 + 1, acc.2 + length)

/-- The free space kept in reserve, in `Store::write` and `Store::archive`. -/
def checkSpace (space : Option (UInt64 × UInt64)) (length : Nat) (overflow unavailable : String) :
    Result Unit :=
  match space with
  | none => refuse unavailable
  | some (blocks, size) => do
    refuseIf (blocks.toNat * size.toNat ≥ 2 ^ 64) overflow
    refuseIf (blocks.toNat * size.toNat < length + 16 * 1024 * 1024) unavailable

/-- The checks of `Store::write`, before it touches the disk. -/
def checkCapacity (M : Storage) (root : Table (Record ε)) (record : Record ε)
    (records : Table (Record ε)) : Result Unit := do
  let length := (record.bytes O).length
  let reserved := retention records record.operationId || record.terminal
  let recordLimit := if reserved then maxRecords else maxRecords - 1024
  let byteLimit := if reserved then maxBytes else maxBytes - 4 * 1024 * 1024
  refuseIf (records.size > recordLimit || length > maxRecord ||
      ((Table.values records).map fun r => (r.bytes O).length).sum > byteLimit)
    "policy evidence capacity exhausted; retain/export exact closed operations"
  refuseIf (root.size > maxRecords) "native artifact inventory exceeds capacity"
  let (count, total) ← root.toList.foldlM (memberCount O record.recordId) (0, 0)
  refuseIf (count + 1 > recordLimit || total + length > byteLimit)
    "physical policy evidence capacity exhausted; retain exact closed operations"
  checkSpace M.space length "policy evidence free-space overflow"
    "policy evidence storage reserve unavailable"

/-- `Store::write`: the file is in place once published, whether or not the syncs after it fail. -/
def Store.write (M : Storage) (record : Record ε) (records : Table (Record ε)) :
    Mut (Store ε) Unit := do
  let s ← get
  checkCapacity O M s.root record records
  M.publish
  set { s with root := s.root.insert record.recordId record }
  M.settle

/-- The part of an append that `Store::append` and `Operation::decisions` share. -/
def Store.admitRecord (M : Storage) (records : Table (Record ε)) (record : Record ε) :
    Mut (Store ε) (Table (Record ε)) := do
  record.validate O
  let extended := records.insert record.recordId record
  validateRecordLinks O extended
  Store.write O M record extended
  pure extended

/-- `Store::append`, under the id that `random_id` returned. -/
def Store.append (M : Storage) (recordId : Result String) (operation : String)
    (payload : Payload ε) : Mut (Store ε) (Record ε) := do
  M.lock
  let s ← get
  let records ← s.inventory O fromSlice M
  let recordId ← recordId
  let record : Record ε := ⟨1, s.installation, recordId, operation, payload⟩
  let _ ← Store.admitRecord O M records record
  pure record

/-- One decision of `Operation::decisions`; the accumulator is `(records, ids)`. -/
def Store.decisionStep (installation operation : String)
    (acc : Table (Record ε) × List String) (next : Decision × Storage) :
    Mut (Store ε) (Table (Record ε) × List String) := do
  let record : Record ε := ⟨1, installation, next.1.decisionId, operation, .decision next.1⟩
  let records ← Store.admitRecord O next.2 acc.1 record
  pure (records, acc.2 ++ [record.recordId])

/-- `Operation::decisions`. -/
def Store.decisions (M : Storage) (operation : String) (batch : List (Decision × Storage)) :
    Mut (Store ε) (List String) := do
  M.lock
  let s ← get
  let records ← s.inventory O fromSlice M
  let done ← batch.foldlM (Store.decisionStep O s.installation operation) (records, [])
  pure done.2

end Append

/-! ## Retaining a closed operation -/

section Retain

variable [DecidableEq ε] (O : Outside ε) (fromSlice : Bytes → Result (Archive ε))

/-- The archive `Store::retention_input` makes of the active records of an operation. -/
def Archive.ofActive (installation operation : String) (active : Table (Record ε)) : Archive ε :=
  ⟨1, installation, operation, (Table.values active).filter fun r => r.operationId == operation⟩

/-- `Store::retention_input_unlocked`: the archive on file, or the one the active records make. -/
def Store.retentionInput (M : Storage) (operation : String) (s : Store ε) :
    Result (Archive ε) := do
  let records ← s.inventory O fromSlice M
  let (archives, active) ← archiveInventory O fromSlice s.installation M.cached s.archives records
  match archives[operation]? with
  | some name => do
    let bytes ← okOr s.archives[name]? "unsafe or oversized native artifact member"
    let archive ← fromSlice bytes
    archive.validate O
    pure archive
  | none => do
    let archive := Archive.ofActive s.installation operation active
    archive.validate O
    pure archive

/-- The checks of `Store::archive` on an archive that is not on file yet. -/
def checkArchiveQuota (M : Storage) (s : Store ε) (bytes : Bytes) : Result Unit := do
  let active ← s.inventory O fromSlice M
  let (existing, _) ← archiveInventory O fromSlice s.installation M.cached s.archives active
  let total := bytes.length + ((Table.values existing).map fun name =>
    ((s.archives[name]?).getD []).length).sum
  refuseIf (existing.size ≥ maxArchives || total > maxArchiveBytes)
    "policy archive quota exhausted; preserve all original evidence"
  checkSpace M.space bytes.length "policy archive free-space overflow"
    "policy archive storage reserve unavailable; preserve original evidence"
  -- the proposal is read back before it is renamed
  refuseIf (bytes.length > maxArchive) "unsafe or oversized native artifact member"

/-- `Store::archive`. -/
def Store.archive (M : Storage) (archive : Archive ε) (bytes : Bytes) : Mut (Store ε) Unit := do
  M.lock
  let s ← get
  let retained ← s.retentionInput O fromSlice M archive.operationId
  refuseIf (retained != archive) "policy retention exact member set changed"
  let name := archiveFile O archive.operationId bytes
  match s.archives[name]? with
  | some present => refuseIf (present != bytes) "retained policy archive changed"
  | none => do
    checkArchiveQuota O fromSlice M s bytes
    M.publish
    set { s with archives := s.archives.insert name bytes }
    M.settle

/-- `Store::unlink_archived`. -/
def Store.unlinkArchived (M : Storage) (record : Record ε) (archive : Archive ε) :
    Mut (Store ε) Unit := do
  M.lock
  let s ← get
  let retained ← s.retentionInput O fromSlice M archive.operationId
  refuseIf (retained != archive || !archive.records.contains record)
    "policy retention archive or exact member changed"
  -- this listing has room for one name less than the others: a full root is refused
  refuseIf (s.root.size > maxRecords - 1) "native artifact inventory exceeds capacity"
  match s.root[record.recordId]? with
  | none => pure ()
  | some present => do
    refuseIf (present.bytes O != record.bytes O) "policy retention original member changed"
    M.publish
    set { s with root := s.root.erase record.recordId }
    M.settle

end Retain

end LumaOS.Policy
