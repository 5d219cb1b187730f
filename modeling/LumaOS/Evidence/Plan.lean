import LumaOS.Evidence.Custody

/-!
# The deletion plan and the record of deletions

Model of `Store::deletion_plan`, `DeletionPlan` and `Store::retention_outcomes`
(`resources/retention.rs:104-282`, `504-540`). A plan names the evidence to delete with the identity
of each file, and its review is a digest of all of it. A deletion leaves two records: the intent,
which is the plan, and the receipt. `outcomes` reads every intent back and says which of them have
their receipt.
-/

namespace LumaOS.Evidence

open LumaOS.Base LumaOS.Text LumaOS.Json
open LumaOS.Resources (Ledger)
open LumaOS.Governance (Use)

/-! ## Records -/

def i64Json (n : Int64) : Value := .number n.toInt

def Value.asI64 : Value → Option Int64
  | .number n => if -2 ^ 63 ≤ n ∧ n < 2 ^ 63 then some (Int64.ofInt n) else none
  | _ => none

def Identity.toJson (i : Identity) : Value :=
  .object [("device", u64Json i.device), ("inode", u64Json i.inode), ("length", u64Json i.length),
    ("modified", i64Json i.modified), ("modified_ns", i64Json i.modifiedNs),
    ("changed", i64Json i.changed), ("changed_ns", i64Json i.changedNs),
    ("sha256", .string i.sha256)]

def Identity.ofJson (v : Value) : Option Identity := do
  let device ← (v.get "device").asU64
  let inode ← (v.get "inode").asU64
  let length ← (v.get "length").asU64
  let modified ← Value.asI64 (v.get "modified")
  let modifiedNs ← Value.asI64 (v.get "modified_ns")
  let changed ← Value.asI64 (v.get "changed")
  let changedNs ← Value.asI64 (v.get "changed_ns")
  let sha256 ← (v.get "sha256").asStr
  pure { device, inode, length, modified, modifiedNs, changed, changedNs, sha256 }

/-- `retention::DeletionPlan`. -/
structure DeletionPlan where
  schemaVersion : UInt32
  generation : Nat
  directory : UInt64 × UInt64
  ledger : Identity
  requests : Identity
  files : Table Identity
deriving DecidableEq

/-- `files` of a plan, and `deleted` of a receipt. -/
def filesJson (files : Table Identity) : Value :=
  .object (files.toList.map fun e => (e.1, e.2.toJson))

/-- A pair of numbers is written as an array. -/
def pairJson (p : UInt64 × UInt64) : Value := .array [u64Json p.1, u64Json p.2]

def Value.asPair : Value → Option (UInt64 × UInt64)
  | .array [a, b] => do pure (← a.asU64, ← b.asU64)
  | _ => none

namespace DeletionPlan

def toJson (p : DeletionPlan) : Value :=
  .object [("schema_version", u32Json p.schemaVersion), ("generation", decimal p.generation),
    ("directory", pairJson p.directory), ("ledger", p.ledger.toJson),
    ("requests", p.requests.toJson), ("files", filesJson p.files)]

def ofJson (v : Value) : Option DeletionPlan := do
  let schemaVersion ← (v.get "schema_version").asU32
  let generation ← (v.get "generation").asDecimal
  let directory ← Value.asPair (v.get "directory")
  let ledger ← Identity.ofJson (v.get "ledger")
  let requests ← Identity.ofJson (v.get "requests")
  let files ← (v.get "files").asTable Identity.ofJson
  pure { schemaVersion, generation, directory, ledger, requests, files }

/-- The bytes of the intent. -/
def bytes (p : DeletionPlan) : Bytes := toVec p.toJson

/-- `b"luma-resource-unreferenced-evidence-deletion-v1\0"`. -/
def domain : Bytes := "luma-resource-unreferenced-evidence-deletion-v1".toUTF8.data.toList ++ [0]

variable (O : Outside)

/-- `DeletionPlan::review`. -/
def review (p : DeletionPlan) : String := digest O.sha256 (domain ++ p.bytes)

/-- `self.files.values().try_fold(0, ..)`. -/
def inputBytes (p : DeletionPlan) : Result Nat :=
  p.files.toList.foldlM (fun sum e =>
    Resources.checkedAdd sum e.2.length.toNat "resource evidence size overflow") 0

/-- `DeletionPlan::usage`. -/
def usage (p : DeletionPlan) : Result Use := do
  let inputBytes ← p.inputBytes
  let use : Use :=
    { action := .retain
      selector :=
        { kind := .resource, id := "resource-retention", generation := UInt64.ofNat p.generation
          digest := p.review O }
      inputBytes := UInt64.ofNat inputBytes
      outputBytes := 0
      units := UInt64.ofNat p.files.size }
  use.validate
  pure use

end DeletionPlan

variable (O : Outside)

/-! ## The plan -/

/-- `retention::reference`. -/
def preparation (name : String) : Result Resources.Archive := do
  let (generation, sha256) ← okOr (((stripPrefix ".archive-stage-archive-" name).bind
    (stripSuffix ".json")).bind (splitOnce '-'))
    "unknown resource archive preparation name; preserve state"
  let throughGeneration ← okOr (parseU64 generation) "invalid digit found in string"
  let archive : Resources.Archive := { throughGeneration, sha256 }
  refuseIf (throughGeneration == 0 || !isHash sha256 ||
      ".archive-stage-" ++ archiveName archive != name)
    "noncanonical resource archive preparation name"
  pure archive

/-- The evidence that `deletion_plan` accepts. -/
def accept (d : Directory) (ledger : Ledger) (name : String) : Result Unit := do
  if let some suffix := stripPrefix ".archive-retained-" name then
    verifyRetained O d name suffix
  else if startsWith ".archive-stage-" name then
    let archive ← preparation name
    refuseIf (archive.throughGeneration > ledger.generation)
      "future resource archive preparation cannot be deleted"
  else if let some suffix := stripPrefix "archive-" name then
    let archive ← preparation (".archive-stage-archive-" ++ suffix)
    refuseIf (ledger.archives.contains archive)
      "referenced resource receipts and owner tombstones cannot be deleted"
    let _ ← archived O d archive
  else if startsWith ".requests-" name || startsWith "requests-archive-" name then
    retentionEvidence O d name
  else refuse "resource retention accepts only exact unreferenced archive evidence"

/-- One turn of the loop of `deletion_plan`. -/
def planStep (d : Directory) (ledger : Ledger) (files : Table Identity) (name : String) :
    Result (Table Identity) := do
  refuseIf (files.contains name) "duplicate resource retention target"
  accept O d ledger name
  let found ← identity O d name
  pure (files.insert name found)

/-- `Store::deletion_plan`. -/
def deletionPlan (d : Directory) (names : List String) : Result DeletionPlan := do
  refuseIf (names.isEmpty || names.length > 16)
    "resource retention requires one to sixteen exact evidence names"
  let ledger ← readLedger d
  refuseIf (ledger.generation == 0 || unreleased ledger)
    "resource retention requires an initialized, physically released ledger"
  verifyArchives O ledger d
  retentionIdle O d
  let requests ← identity O d "requests.json"
  let files ← names.foldlM (planStep O d ledger) ∅
  let ledgerIdentity ← identity O d "ledger.json"
  pure
    { schemaVersion := 1, generation := ledger.generation, directory := d.identity
      ledger := ledgerIdentity, requests, files }

/-! ## The record -/

/-- The name of an intent. -/
def intentName (reviewed : String) : String := ".retention-" ++ reviewed ++ ".intent.json"

/-- The name of a receipt. -/
def receiptName (reviewed : String) : String := ".retention-" ++ reviewed ++ ".receipt.json"

/-- The receipt of a deletion. -/
def receiptJson (reviewed : String) (files : Table Identity) : Value :=
  sorted (.object [("schema_version", .number 1), ("review_sha256", .string reviewed),
    ("deleted", filesJson files), ("authority_chain_preserved", .bool true),
    ("generation_preserved", .bool true), ("worker_resources_released", .bool false)])

/-- What `retention_outcomes` reports of one intent: its targets, and whether the outcome is
`confirmed-local-deletion` or `uncertain-inspect-no-automatic-retry`. -/
structure Outcome where
  targets : Table Identity
  confirmed : Bool

/-- The most outcomes there may be. -/
def maxOutcomes : Nat := 64

/-- The plan of an intent. -/
def readIntent (d : Directory) (reviewed : String) : Result DeletionPlan := do
  let bytes ← d.privateRead maxBytes (intentName reviewed)
  let plan ← okOr (decodeAs DeletionPlan.ofJson bytes) (O.malformed bytes)
  refuseIf (plan.schemaVersion != 1 || plan.generation == 0 || plan.files.isEmpty ||
      plan.files.size > 16 || plan.review O != reviewed || plan.bytes != bytes)
    "resource retention intent damaged; retain evidence"
  let _ ← plan.usage O
  pure plan

/-- The receipt is there, and it is the plan's. -/
def readReceipt (d : Directory) (reviewed : String) (plan : DeletionPlan) : Result Bool :=
  match d.files[receiptName reviewed]? with
  | none => pure false
  | some _ => do
    let receipt ← d.privateRead maxBytes (receiptName reviewed)
    refuseIf (toVec (receiptJson reviewed plan.files) != receipt)
      "resource retention receipt damaged; retain evidence"
    pure true

/-- The review that the name of an intent carries. -/
def intended (name : String) : Option String :=
  (stripPrefix ".retention-" name).bind (stripSuffix ".intent.json")

/-- One turn of the loop of `retention_outcomes`. -/
def outcomeStep (d : Directory) (outcomes : Table Outcome) (entry : String × File) :
    Result (Table Outcome) :=
  match intended entry.1 with
  | none => pure outcomes
  | some reviewed => do
    refuseIf (!isHash reviewed || outcomes.size ≥ maxOutcomes)
      "resource retention audit inventory invalid or exhausted"
    let plan ← readIntent O d reviewed
    let confirmed ← readReceipt d reviewed plan
    pure (outcomes.insert reviewed { targets := plan.files, confirmed })

/-- `Store::retention_outcomes`: the outcomes by review. -/
def retentionOutcomes (d : Directory) : Result (Table Outcome) := do
  let _ ← readLedger d
  scan "resource retention audit inspection bound exceeded" (outcomeStep O d) ∅ d

/-! ## The deletion -/

/-- The ledger and the journal are still the plan's, and so is `target`. -/
def unchanged (plan : DeletionPlan) (message : String) (d : Directory) : Result Unit := do
  let ledger ← identity O d "ledger.json"
  let requests ← identity O d "requests.json"
  refuseIf (ledger != plan.ledger || requests != plan.requests) message

/-- One turn of the loop over the plan's files. -/
def deleteOne (plan : DeletionPlan) (entry : String × Identity) : Calls Directory Seen Unit := do
  probe
  observe fun d => do
    unchanged O plan "resource retention authority or evidence changed before deletion" d
    let found ← identity O d entry.1
    refuseIf (found != entry.2) "resource retention authority or evidence changed before deletion"
  unlink entry.1
  probe
  observe fun d => do
    refuseIf (d.files.contains entry.1) "resource evidence deletion outcome is uncertain"
    unchanged O plan "resource ledger changed during evidence deletion" d

/-- `Store::delete_retained_checked`, on a store that has just been opened. -/
def deleteRetainedChecked (names : List String) (reviewed : String) :
    Calls Directory Seen Value := do
  let plan ← observe fun d => deletionPlan O d names
  refuseIf (plan.review O != reviewed) "resource retention review changed"
  probe
  let again ← observe fun d => deletionPlan O d names
  refuseIf (again != plan) "resource retention target drifted after authorization"
  observe fun d => refuseIf (d.identity != plan.directory) "resource retention directory changed"
  let outcomes ← observe (retentionOutcomes O)
  refuseIf (outcomes.size ≥ maxOutcomes)
    "resource retention outcome inventory exhausted; no automatic audit eviction"
  let count ← observe fun d => pure d.files.size
  refuseIf (count ≥ maxEntries - 2)
    "resource retention audit inventory exhausted; preserve prior outcomes"
  publishEvidence (intentName reviewed) plan.bytes
  plan.files.toList.forM (deleteOne O plan)
  observe fun d => do
    let ledger ← readLedger d
    verifyArchives O ledger d
    retentionIdle O d
  publishEvidence (receiptName reviewed) (toVec (receiptJson reviewed plan.files))
  pure (receiptJson reviewed plan.files)

end LumaOS.Evidence
