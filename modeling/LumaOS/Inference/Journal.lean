import LumaOS.Inference.Gate

/-!
# The durable request journal

Model of the part of `requests/journal.rs:225-909` that moves receipts from the gate into an
archive: `validate_records`, the journal's bytes, `persist` and `archive_requests`. The directory is
outside the model; what its reads and writes answered is an argument (`Persisting`, `Archiving`), so
a result holds for every failure of the disk.

A write whose outcome is unknown poisons the gate, and a read that disagrees with what was last
published takes its authority: in both cases every later call is refused until a restart.
-/

namespace LumaOS.Inference

open LumaOS.Base LumaOS.Text LumaOS.Json LumaOS.Governance

/-- `journal::MAX_BYTES`. -/
def maxBytes : Nat := 1024 * 1024

/-- `journal::MAX_ARCHIVES`. -/
def maxArchives : Nat := 64

/-! ## Validation -/

/-- The checks of `validate_records` on a product request's attribution. -/
def Record.checkProduct (r : Record) : Result Unit :=
  match r.product with
  | none => pure ()
  | some product => do
    product.validate
    refuseIf (r.caller.uid != 0 || product.usage.action != .infer ||
        product.usage.selector.generation.toNat != r.worker.generation ||
        product.usage.selector.id != r.profile || product.usage.units != r.limit)
      "request product attribution differs from its exact serving task"

/-- The identity and budget of a durable record. -/
def Record.identified (r : Record) : Bool :=
  nonceValid r.worker.leaseId && nonceValid r.worker.managerEpoch && r.worker.generation != 0 &&
    r.caller.pid != 0 && r.caller.start != 0 && (r.caller.uid == 0 || r.caller.uid == 990) &&
    !(r.caller.uid == 990 && r.inputDigest.isNone) && !r.caller.boot.isEmpty &&
    r.caller.boot.utf8ByteSize ≤ 128 &&
    (r.caller.boot.toList.all fun c => c.isAlphanum || c == '-') && !r.profile.isEmpty &&
    r.profile.utf8ByteSize ≤ 128 && (r.profile.toList.all fun c => c.isAlphanum || c == '-') &&
    r.limit != 0 && r.limit ≤ maxOutput && r.context == 2048 && r.untilMs != 0 &&
    r.inputDigest.all digestValid

/-- The fields that a durable record's phase calls for. -/
def Record.consistent (r : Record) : Bool :=
  let prepared := r.prompt.isNone && r.tokenDigest.isNone
  let admitted := (r.prompt.any fun p => p > 0 && (u64Add p r.limit).any fun v => v ≤ r.context) &&
    r.tokenDigest.any digestValid
  let noResult := r.output.isNone && r.resultDigest.isNone
  match r.phase with
  | .preparing => prepared && noResult
  | .admitted => admitted && noResult
  | .completed => admitted && (r.output.any fun n => n > 0 && n ≤ r.limit) &&
      r.resultDigest.any digestValid
  | .draining => (prepared || admitted) && noResult
  | .released => (prepared || admitted) && noResult

/-- One record of `validate_records`; the accumulator is `(nonces, outstanding)`. -/
def validateRecord (acc : Names × Nat) (r : Record) : Result (Names × Nat) := do
  r.checkProduct
  refuseIf (!nonceValid r.nonce || acc.1.contains r.nonce || !r.identified)
    "invalid durable inference identity or budget; preserve state"
  refuseIf (!r.consistent) "inconsistent durable inference transition; preserve state"
  pure (acc.1.insert r.nonce, acc.2 + if r.terminal then 0 else 1)

/-- `validate_records`. -/
def validateRecords (records : List Record) : Result Names := do
  refuseIf (records.length > maxReceipts) "request receipt inventory exhausted"
  let (nonces, outstanding) ← records.foldlM validateRecord (∅, 0)
  refuseIf (outstanding > 1) "durable inference slot capacity exceeded"
  pure nonces

/-! ## Serialisation -/

def Caller.toJson (c : Caller) : Value :=
  .object ([("pid", u32Json c.pid), ("start", u64Decimal c.start), ("boot", .string c.boot)] ++
    if c.uid = 0 then [] else [("uid", u32Json c.uid)])

def Record.toJson (r : Record) : Value :=
  .object ([("caller", r.caller.toJson), ("nonce", .string r.nonce), ("worker", r.worker.toJson),
    ("profile", .string r.profile), ("limit", u64Decimal r.limit),
    ("context", u64Decimal r.context), ("until", u64Decimal r.untilMs), ("phase", r.phase.toJson),
    ("prompt", optional u64Decimal r.prompt), ("token_digest", optional .string r.tokenDigest),
    ("output", optional u64Decimal r.output),
    ("result_digest", optional .string r.resultDigest)] ++
    skipNone "input_digest" .string r.inputDigest ++ skipNone "product" Audit.toJson r.product)

def Archive.toJson (a : Archive) : Value :=
  .object [("batch", u64Decimal a.batch), ("sha256", .string a.sha256)]

def Origin.toJson : Origin → Value
  | .freshResourceState => .object [("kind", .string "fresh-resource-state")]
  | .reviewedLegacyMigration ledgerReview managerEpoch generation =>
    .object [("kind", .string "reviewed-legacy-migration"),
      ("ledger_review", .string ledgerReview), ("manager_epoch", .string managerEpoch),
      ("generation", u64Decimal generation)]

/-- `journal::SnapshotRef` of a gate. -/
def Gate.snapshot (g : Gate) : Value :=
  .object [("schema_version", .number 1), ("origin", g.retention.origin.toJson),
    ("archives", .array (g.retention.archives.map Archive.toJson)),
    ("records", .array (g.records.map Record.toJson))]

/-! ## Publication -/

/-- `journal::digest`. -/
def digest (sha256 : Bytes → Bytes) (bytes : Bytes) : String := hex (sha256 bytes)

/-- What the directory answered to one `persist`: the digest of the journal it holds, the outcome of
the write, and the digest read back. -/
structure Persisting where
  before : Except String String
  publish : Except String Unit
  after : Except String String

/-- What the directory and the ledger's store answered to one `archive_requests`. -/
structure Archiving where
  hot : Persisting
  status : Except String String
  managerEpoch : Except String String
  inventory : Except String Unit
  filesExhausted : Except String Bool
  publish : Except String Unit
  readback : Except String String
  loaded : Except String String
  cut : Persisting

namespace Gate

/-- `Gate::bytes`. -/
def bytes (g : Gate) : Result Bytes := do
  g.retention.check
  let nonces ← validateRecords g.records
  refuseIf (nonces.toList.any fun n => g.retention.retired.contains n)
    "inference identity collides with retained history"
  let bytes := toVec g.snapshot
  refuseIf (bytes.length > maxBytes) "private inference journal capacity exhausted"
  pure bytes

/-- `self.retention.poisoned = true`. -/
def poison (g : Gate) : Gate := { g with retention := { g.retention with poisoned := true } }

/-- `self.retention.authority_lost.set(true)`. -/
def loseAuthority (g : Gate) : Gate :=
  { g with retention := { g.retention with authorityLost := true } }

/-- `Gate::verify_durable`; `observed` is the digest of the journal as the directory holds it. -/
def verifyDurable (observed : Except String String) (expected : String) : Mut Gate Unit := do
  let g ← get
  g.retention.check
  Mut.onError loseAuthority do
    let sha256 ← ofForeign observed
    refuseIf (sha256 != expected) "request journal changed outside authority; preserve state"

/-- `Gate::verify_loaded`. -/
def verifyLoaded (observed : Except String String) : Mut Gate Unit := do
  let g ← get
  let expected ← okOr g.retention.published "request journal not loaded"
  verifyDurable observed expected

/-- `Gate::persist`. -/
def persist (sha256 : Bytes → Bytes) (io : Persisting) (acknowledge : Bool) : Mut Gate Unit := do
  let g ← get
  let bytes ← g.bytes
  let next := digest sha256 bytes
  let published ← okOr g.retention.published "request journal not loaded"
  Mut.onError poison do
    verifyDurable io.before published
    if next = published ∧ acknowledge = false then pure () else do
      ofForeign io.publish
      verifyDurable io.after next
  modify fun g => { g with retention := { g.retention with published := some next } }

/-- `Gate::retention_status`. -/
def retentionStatus (sha256 : Bytes → Bytes) (observed managerEpoch : Except String String) :
    Mut Gate Value := do
  verifyLoaded observed
  let g ← get
  let bytes ← g.bytes
  let epoch ← ofForeign managerEpoch
  let review := digest sha256 (toVec (.array [.string epoch, .string (digest sha256 bytes)]))
  pure (sorted (.object [("review", .string review), ("hot_receipts", .number g.records.length),
    ("origin", g.retention.origin.toJson), ("hot_limit", .number maxReceipts),
    ("archives", .array (g.retention.archives.map Archive.toJson)),
    ("input_binding_required", .bool true),
    ("input_bound_hot_receipts", .number (g.records.countP fun r => r.inputDigest.isSome)),
    ("legacy_unbound_hot_receipts", .number (g.records.countP fun r => r.inputDigest.isNone)),
    ("archive_limit", .number maxArchives),
    ("retired_nonces", .number g.retention.retired.size),
    ("archivable", .bool (!g.occupied && !g.records.isEmpty &&
      g.retention.archives.length < maxArchives)),
    ("worker_resources_released", .bool false), ("automatic_deletion", .bool false)]))

/-- The publication of the archive, up to the check that the hot journal is still the one
published. -/
def publishArchive (io : Archiving) (reference : Archive) : Mut Gate Unit :=
  Mut.onError poison do
    ofForeign io.publish
    let readback ← ofForeign io.readback
    refuseIf (readback != reference.sha256)
      "request archive publication readback differs; preserve state"
    verifyLoaded io.loaded

/-- `self.retention.archives.push(reference.clone()); self.records.clear()`. -/
def withoutReceipts (g : Gate) (reference : Archive) : Gate :=
  { g with
    records := []
    retention := { g.retention with archives := g.retention.archives ++ [reference] } }

/-- `Gate::archive_requests`. The receipts leave the gate before the cut of the journal is durable,
and their nonces are retired after it. -/
def archiveRequests (sha256 : Bytes → Bytes) (io : Archiving) (review : String) :
    Mut Gate Value := do
  persist sha256 io.hot true
  let status ← retentionStatus sha256 io.status io.managerEpoch
  let g ← get
  refuseIf ((status.get "review").asStr != some review || g.occupied || g.records.isEmpty ||
      g.retention.archives.length ≥ maxArchives)
    "stale request archival review, outstanding requests or exhausted retention"
  ofForeign io.inventory
  let bytes ← g.bytes
  let reference : Archive :=
    { batch := UInt64.ofNat (g.retention.archives.length + 1), sha256 := digest sha256 bytes }
  let exhausted ← ofForeign io.filesExhausted
  refuseIf exhausted "retained request file inventory exhausted"
  publishArchive io reference
  let g ← get
  let nonces ← validateRecords g.records
  set (g.withoutReceipts reference)
  Mut.onError poison (persist sha256 io.cut true)
  modify fun g => { g with
    retention := { g.retention with
      retired := nonces.toList.foldl (fun s n => s.insert n) g.retention.retired } }
  pure (sorted (.object [("archive", reference.toJson), ("hot_receipts", .string "0"),
    ("worker_resources_released", .bool false), ("receipts_preserved", .bool true),
    ("nonces_retired", .bool true)]))

end Gate

end LumaOS.Inference
