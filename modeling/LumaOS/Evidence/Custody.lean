import LumaOS.Evidence.Directory
import LumaOS.Inference.Journal
import LumaOS.Resources.Codec

/-!
# What the store checks before it deletes

`Store::read` of a store that has just been opened (no telemetry and no renewed deadline),
`Store::archived` and `Store::verify_archives` (`resources.rs:876-1032`), and of the request journal
`decode`, `inventory`, `Gate::open` and `retention_idle` (`requests/journal.rs:306-533`, `987-994`).
All of them only look at the directory, so they are functions of it; `serde_json`'s reading of the
journal is the parameter `Outside.journal`.

A listing comes in the order of the names. Its order in the source is the file system's, and it
decides only which of several errors is reported.
-/

namespace LumaOS.Evidence

open LumaOS.Base LumaOS.Text LumaOS.Json
open LumaOS.Resources (Ledger)
open LumaOS.Inference (Record Origin Gate digestValid)

deriving instance DecidableEq for Inference.Archive, Inference.Origin

/-- `resources::MAX_BYTES`. -/
def maxBytes : Nat := 8 * 1024 * 1024

/-- `retention::MAX_DIRECTORY_ENTRIES`, and the journal's. -/
def maxEntries : Nat := 512

/-- `MAX_ARCHIVE_FILES`, and the journal's `MAX_FILES`. -/
def maxFiles : Nat := 128

/-- `journal::Snapshot`. -/
structure Snapshot where
  schemaVersion : UInt32
  origin : Origin
  archives : List Inference.Archive
  records : List Record

/-- What the store rests on outside the repository. -/
structure Outside where
  sha256 : Bytes → Vector UInt8 32
  /-- `serde_json::from_slice::<Snapshot>`. -/
  journal : Bytes → Option Snapshot
  /-- What `serde_json` says of bytes that it cannot read. -/
  malformed : Bytes → String

/-- `fs::read_dir(..)`: each entry is looked at, up to the bound. -/
def scan {α : Type} (message : String) (step : α → String × File → Result α) (start : α)
    (d : Directory) : Result α := do
  let seen ← (d.files.toList.take maxEntries).foldlM step start
  refuseIf (d.files.size > maxEntries) message
  pure seen

variable (O : Outside)

/-- `retention::identity`. -/
def identity (d : Directory) (name : String) : Result Identity :=
  d.identityOf O.sha256 maxBytes "unsafe or oversized resource archive preparation" name

/-- `journal::stage_identity`. -/
def stageIdentity (d : Directory) (name : String) : Result Identity :=
  d.identityOf O.sha256 Inference.maxBytes "unsafe request recovery stage" name

/-! ## The ledger and its archives -/

/-- `Store::read`, right after `Store::open`. -/
def readLedger (d : Directory) : Result Ledger := do
  let bytes ← d.privateRead maxBytes "ledger.json"
  let ledger ← okOr (decodeAs Ledger.ofJson bytes) "malformed resource ledger; preserve state"
  refuseIf (toVec ledger.toJson != bytes) "noncanonical resource ledger; preserve state"
  ledger.validate
  pure ledger

/-- `Archive::name`. -/
def archiveName (a : Resources.Archive) : String :=
  "archive-" ++ toString a.throughGeneration ++ "-" ++ a.sha256 ++ ".json"

/-- `lease.state != State::Released`. -/
def unreleased (l : Ledger) : Bool := l.leases.any fun x => x.state != .released

/-- `Store::archived`. -/
def archived (d : Directory) (reference : Resources.Archive) : Result Ledger := do
  let bytes ← d.privateRead maxBytes (archiveName reference)
  refuseIf (digest O.sha256 bytes != reference.sha256)
    "resource archive digest mismatch; preserve state"
  let ledger ← okOr (decodeAs Ledger.ofJson bytes) (O.malformed bytes)
  refuseIf (toVec ledger.toJson != bytes) "noncanonical resource archive"
  ledger.validate
  refuseIf (ledger.generation != reference.throughGeneration || ledger.leases.isEmpty ||
      unreleased ledger)
    "resource archive contains outstanding or mismatched generations"
  pure ledger

/-- `retention::verify_retained`. -/
def verifyRetained (d : Directory) (name suffix : String) : Result Unit := do
  let (sha256, review) ← okOr ((stripSuffix ".json" suffix).bind (splitOnce '-'))
    "invalid retained resource incident name"
  refuseIf (!isHash sha256 || !isHash review) "retained resource incident mismatch"
  let observed ← identity O d name
  refuseIf (observed.sha256 != sha256) "retained resource incident mismatch"

/-- The file counts as archive evidence. -/
def isArchive (name : String) : Bool :=
  startsWith ".archive-stage-" name || startsWith ".archive-retained-" name ||
    startsWith "archive-" name

/-- The reference that the name of an archive spells. -/
def archiveReference (rest : String) : Result Resources.Archive := do
  let (generation, hash) ← okOr (splitOnce '-' rest) "invalid archive filename"
  let hash ← okOr (stripSuffix ".json" hash) "invalid archive suffix"
  let throughGeneration ← okOr (parseU64 generation) "invalid digit found in string"
  pure { throughGeneration, sha256 := hash }

/-- What `verify_archives` checks of one entry, behind the bound on their number. -/
def verifyEntry (ledger : Ledger) (d : Directory) (name : String) : Result Unit := do
  if let some suffix := stripPrefix ".archive-retained-" name then
    verifyRetained O d name suffix
  else if startsWith ".archive-stage-" name then
    let _ ← d.privateRead maxBytes name
  else if let some rest := stripPrefix "archive-" name then
    let reference ← archiveReference rest
    refuseIf (archiveName reference != name || !isHash reference.sha256)
      "noncanonical resource archive filename"
    if !ledger.archives.contains reference then
      let _ ← archived O d reference

/-- One turn of the loop of `verify_archives`, which counts the archives. -/
def verifyStep (ledger : Ledger) (d : Directory) (count : Nat) (entry : String × File) :
    Result Nat := do
  let count := if isArchive entry.1 then count + 1 else count
  refuseIf (count > maxFiles) "retained resource archive inventory exhausted"
  verifyEntry O ledger d entry.1
  pure count

/-- The chain of referenced archives; `before` are those already verified. -/
def verifyChain (d : Directory) (before : List Resources.Archive) :
    List Resources.Archive → Result Unit
  | [] => pure ()
  | reference :: rest => do
    let archive ← archived O d reference
    refuseIf (archive.archives != before) "resource archive predecessor chain mismatch"
    verifyChain d (before ++ [reference]) rest

/-- `Store::verify_archives`, without the digests of the owners it returns. -/
def verifyArchives (ledger : Ledger) (d : Directory) : Result Unit := do
  let _ ← scan "private resource directory inspection limit exceeded" (verifyStep O ledger d) 0 d
  verifyChain O d [] ledger.archives

/-! ## The request journal -/

/-- `journal::Archive::name`. -/
def requestArchiveName (a : Inference.Archive) : String :=
  "requests-archive-" ++ toString a.batch ++ "-" ++ a.sha256 ++ ".json"

def Snapshot.toJson (s : Snapshot) : Value :=
  .object [("schema_version", u32Json s.schemaVersion), ("origin", s.origin.toJson),
    ("archives", .array (s.archives.map Inference.Archive.toJson)),
    ("records", .array (s.records.map Record.toJson))]

/-- The provenance that `decode` accepts. -/
def checkOrigin : Origin → Result Unit
  | .freshResourceState => pure ()
  | .reviewedLegacyMigration ledgerReview managerEpoch generation =>
    refuseIf (!digestValid ledgerReview ||
        !(Inference.nonceValid managerEpoch || managerEpoch.isEmpty && generation == 0))
      "invalid request journal migration provenance"

/-- The batches are numbered from one; `index` is the number of archives before. -/
def checkBatches : Nat → List Inference.Archive → Result Unit
  | _, [] => pure ()
  | index, reference :: rest => do
    refuseIf (reference.batch.toNat != index + 1 || !digestValid reference.sha256)
      "invalid request archive chain"
    checkBatches (index + 1) rest

/-- `journal::decode`. -/
def decodeJournal (bytes : Bytes) : Result Snapshot := do
  let snapshot ← okOr (O.journal bytes) (O.malformed bytes)
  refuseIf (snapshot.schemaVersion != 1 || toVec snapshot.toJson != bytes ||
      snapshot.archives.length > Inference.maxArchives)
    "noncanonical or unsupported inference journal; preserve state"
  checkOrigin snapshot.origin
  checkBatches 0 snapshot.archives
  let _ ← Inference.validateRecords snapshot.records
  pure snapshot

/-- The receipts of an archive are final. -/
def unfinished (s : Snapshot) : Bool := s.records.any fun r => !r.terminal

/-- What `inventory` checks of one entry. -/
def inventoryEntry (d : Directory) (name : String) : Result Unit := do
  if let some suffix := stripPrefix ".requests-retained-" name then
    let (hash, review) ← okOr (splitOnce '-' suffix) "invalid retained request incident name"
    let review ← okOr (stripSuffix ".json" review) "invalid retained request incident suffix"
    refuseIf (!digestValid hash || !digestValid review) "retained request incident mismatch"
    let observed ← stageIdentity O d name
    refuseIf (observed.sha256 != hash) "retained request incident mismatch"
  else if startsWith ".requests-stage-" name then
    let _ ← d.privateRead Inference.maxBytes name
  else if let some suffix := stripPrefix "requests-archive-" name then
    let (batch, hash) ← okOr (splitOnce '-' suffix) "invalid request archive filename"
    let batch ← okOr (parseU64 batch) "invalid digit found in string"
    let sha256 ← okOr (stripSuffix ".json" hash) "invalid request archive suffix"
    let reference : Inference.Archive := { batch := UInt64.ofNat batch, sha256 }
    refuseIf (batch == 0 || !digestValid sha256 || requestArchiveName reference != name)
      "noncanonical request archive filename"
    let bytes ← d.privateRead Inference.maxBytes name
    let snapshot ← decodeJournal O bytes
    refuseIf (digest O.sha256 bytes != sha256 || snapshot.records.isEmpty ||
        snapshot.archives.length + 1 != batch || unfinished snapshot)
      "request archive has mismatched or outstanding receipts"

/-- The file counts as request evidence. -/
def isRequests (name : String) : Bool :=
  startsWith ".requests-retained-" name || startsWith ".requests-stage-" name ||
    startsWith "requests-archive-" name

/-- One turn of the loop of `inventory`. -/
def inventoryStep (d : Directory) (count : Nat) (entry : String × File) : Result Nat := do
  inventoryEntry O d entry.1
  let count := if isRequests entry.1 then count + 1 else count
  refuseIf (count > maxFiles) "retained request file inventory exhausted"
  pure count

/-- One archive of the chain of `inventory`. -/
def chainedArchive (d : Directory) (origin : Origin) (before : List Inference.Archive)
    (reference : Inference.Archive) : Result Snapshot := do
  let bytes ← d.privateRead Inference.maxBytes (requestArchiveName reference)
  refuseIf (digest O.sha256 bytes != reference.sha256) "request archive digest mismatch"
  let snapshot ← decodeJournal O bytes
  refuseIf (snapshot.origin != origin || snapshot.archives != before || snapshot.records.isEmpty ||
      unfinished snapshot)
    "request archive predecessor or terminal state mismatch"
  pure snapshot

/-- The nonces of an archive join those retired before it. -/
def retire (retired : Names) (r : Record) : Result Names := do
  refuseIf (retired.contains r.nonce) "duplicate retired inference identity"
  pure (retired.insert r.nonce)

/-- The chain of referenced archives of `inventory`. -/
def requestChain (d : Directory) (origin : Origin) (before : List Inference.Archive)
    (retired : Names) : List Inference.Archive → Result Names
  | [] => pure retired
  | reference :: rest => do
    let snapshot ← chainedArchive O d origin before reference
    let retired ← snapshot.records.foldlM retire retired
    requestChain d origin (before ++ [reference]) retired rest

/-- `journal::inventory`. -/
def inventory (d : Directory) (references : List Inference.Archive) (origin : Origin) :
    Result Names := do
  let _ ← scan "private request directory inspection limit exceeded" (inventoryStep O d) 0 d
  requestChain O d origin [] ∅ references

/-- `Gate::verify_loaded` of a gate that has just been opened. -/
def verifyLoaded (d : Directory) (published : String) : Result Identity := do
  let _ ← readLedger d
  let observed ← stageIdentity O d "requests.json"
  refuseIf (observed.sha256 != published) "request journal changed outside authority; preserve state"
  pure observed

/-- `Gate::open`. -/
def openGate (d : Directory) : Result Gate := do
  let _ ← readLedger d
  let bytes ← d.privateRead Inference.maxBytes "requests.json"
  let snapshot ← decodeJournal O bytes
  let retired ← inventory O d snapshot.archives snapshot.origin
  refuseIf (snapshot.records.any fun r => retired.contains r.nonce)
    "hot inference nonce already retired"
  let _ ← verifyLoaded O d (digest O.sha256 bytes)
  pure
    { records := snapshot.records
      retention :=
        { origin := snapshot.origin, archives := snapshot.archives, retired
          published := some (digest O.sha256 bytes), poisoned := false, authorityLost := false } }

/-- `journal::retention_idle`. -/
def retentionIdle (d : Directory) : Result Unit := do
  let gate ← openGate O d
  refuseIf gate.occupied "resource retention requires terminal request authority"
  let published ← okOr gate.retention.published "request journal not loaded"
  let _ ← verifyLoaded O d published

/-- `journal::Archive::stage_reference`. -/
def stageReference (name : String) : Result Inference.Archive := do
  let (batch, hash) ← okOr (((stripPrefix ".requests-stage-requests-archive-" name).bind
    (stripSuffix ".json")).bind (splitOnce '-'))
    "unknown request archive preparation name; preserve state"
  let batch ← okOr (parseU64 batch) "invalid digit found in string"
  let reference : Inference.Archive := { batch := UInt64.ofNat batch, sha256 := hash }
  refuseIf (batch == 0 || !digestValid hash ||
      ".requests-stage-" ++ requestArchiveName reference != name)
    "noncanonical request archive preparation name"
  pure reference

/-- The name that `retention_evidence` may select, given the gate and the file's identity. -/
def selectable (gate : Gate) (target : Identity) (name : String) : Result Unit := do
  if let some suffix := stripPrefix ".requests-retained-" name then
    let (sha256, review) ← okOr ((stripSuffix ".json" suffix).bind (splitOnce '-'))
      "invalid retained request evidence name"
    refuseIf (!digestValid sha256 || !digestValid review || target.sha256 != sha256)
      "retained request evidence digest differs"
  else if startsWith ".requests-stage-" name then
    let archive ← stageReference name
    refuseIf (archive.batch.toNat > gate.retention.archives.length + 1)
      "future request preparation cannot be deleted"
  else if let some suffix := stripPrefix "requests-archive-" name then
    let archive ← stageReference (".requests-stage-requests-archive-" ++ suffix)
    refuseIf (gate.retention.archives.contains archive)
      "referenced request receipts and retired nonce tombstones cannot be deleted"
  else refuse "unsupported request retention evidence name"

/-- `journal::retention_evidence`, without the review digest it returns. -/
def retentionEvidence (d : Directory) (name : String) : Result Unit := do
  let gate ← openGate O d
  refuseIf gate.occupied "request evidence retention requires terminal hot receipts"
  let published ← okOr gate.retention.published "request journal not loaded"
  let before ← verifyLoaded O d published
  let target ← stageIdentity O d name
  selectable gate target name
  let again ← verifyLoaded O d published
  refuseIf (again != before) "request retention journal changed"

end LumaOS.Evidence
