import LumaOS.Base.Interrupt
import LumaOS.Base.Word
import LumaOS.Json

/-!
# The Admin journal and its TPM checkpoint

Model of `admin_journal.rs:19-103, 143-374`, with what it uses of `tpm.rs` (`Clock`, `extend_value`,
`LocalAnchor`, `private_read`: `810-861, 1001-1046`) and `platform::write_atomic`
(`platform.rs:425-469`).

The journal is a JSON file. Its head is a hash chain over the entries, and the TPM holds the head of
what has been committed. `Store::append` writes the whole successor to a second file, extends the
TPM, and renames the second file over the first. `Recovery` finishes the rename when the TPM already
holds the successor's head; it never extends.

The world is the directory with the two files, as the running system sees it and as a power loss
would leave it, and the TPM index. Renames become durable with the next `sync_all` of the directory.
Every access is one system call (`LumaOS.Base.Interrupt`), which may fail, lose its reply or not
return; the replies also show the TPM clock. The checks of `private_read` on owner, mode and links,
the staging file of `write_atomic` and the `authorize` callback have no effect on the two files or
the TPM, so here they are calls that may fail. `LocalAnchor` keeps an exclusive lock, so calls do
not overlap.
-/

namespace LumaOS.Audit

open LumaOS.Base LumaOS.Text LumaOS.Json

/-! ## Entries -/

/-- `tpm::Clock`. -/
structure Clock where
  milliseconds : UInt64
  resetCount : UInt32
  restartCount : UInt32
deriving DecidableEq, Repr

/-- `Clock::elapsed_since`. -/
def Clock.elapsedSince (c issued : Clock) : Result UInt64 := do
  refuseIf (c.resetCount != issued.resetCount || c.restartCount != issued.restartCount)
    "TPM boot epoch changed; renew authorization"
  okOr (u64Sub c.milliseconds issued.milliseconds) "TPM clock regressed"

structure Entry where
  requestId : String
  authenticatedUid : UInt32
  clock : Clock
  activity : String
  payloadSha256 : String
deriving DecidableEq, Repr

structure Journal where
  schemaVersion : UInt32
  deployment : String
  entries : List Entry
deriving DecidableEq, Repr

/-- `MAX_BYTES`. -/
def maxBytes : Nat := 4 * 1024 * 1024

/-- `MAX_EVENTS`. -/
def maxEvents : Nat := 4096

def Clock.toJson (c : Clock) : Value :=
  .object [("milliseconds", .number c.milliseconds.toNat),
    ("reset_count", .number c.resetCount.toNat), ("restart_count", .number c.restartCount.toNat)]

def Entry.toJson (e : Entry) : Value :=
  .object [("request_id", .string e.requestId),
    ("authenticated_uid", .number e.authenticatedUid.toNat), ("clock", e.clock.toJson),
    ("activity", .string e.activity), ("payload_sha256", .string e.payloadSha256)]

def Journal.toJson (j : Journal) : Value :=
  .object [("schema_version", .number j.schemaVersion.toNat), ("deployment", .string j.deployment),
    ("entries", .array (j.entries.map Entry.toJson))]

/-- `serde_json::to_vec(&journal)`. -/
def Journal.bytes (j : Journal) : Bytes := toVec j.toJson

/-- `next.entries.push(entry)`. -/
def Journal.push (j : Journal) (e : Entry) : Journal := { j with entries := j.entries ++ [e] }

/-- `text_id`. -/
def textId (value : String) : Bool :=
  !value.isEmpty && value.utf8ByteSize ≤ 64 &&
    value.toList.all fun c => c.isAlphanum || c == '-' || c == '_' || c == '.'

/-- `n.to_be_bytes()` of a `u64`. -/
def be64 (n : Nat) : Bytes :=
  [56, 48, 40, 32, 24, 16, 8, 0].map fun shift => UInt8.ofNat (n / 2 ^ shift)

/-- What the journal takes from outside the repository: SHA-256 over an arbitrary type of digests
with their bytes, and `serde_json::from_slice`. -/
structure Hashing (D : Type) where
  /-- `Sha256::digest`. -/
  sha256 : Bytes → D
  /-- The digest as a slice. -/
  bytes : D → Bytes
  /-- `[0; 32]`. -/
  zero : D
  /-- `serde_json::from_slice::<Journal>`. -/
  parse : Bytes → Except String Journal

section Head

variable {D : Type} (H : Hashing D)

/-- `tpm::extend_value`. -/
def Hashing.extendValue (previous event : D) : D := H.sha256 (H.bytes previous ++ H.bytes event)

/-- `bundle::hex` of a digest. -/
def Hashing.hex (digest : D) : String := Text.hex (H.bytes digest)

/-- `b"luma-native-admin-audit-v1\0"` and its counterparts. -/
def domainTag (name : String) : Bytes := name.toUTF8.data.toList ++ [0]

/-- `entry_digest`. -/
def entryDigest (domain : String) (position : Nat) (entry : Entry) : Result D := do
  let domain ← decode 32 domain
  pure (H.sha256 (domainTag "luma-native-admin-audit-v1" ++ domain ++ be64 position ++
    toVec entry.toJson))

/-- `admin_journal::genesis`. -/
def genesis (deployment : String) : Result D := do
  let deployment ← decode 32 deployment
  pure (H.sha256 (domainTag "luma-native-admin-genesis-v1" ++ deployment))

/-- `admin_journal::initial`. -/
def initial (deployment : String) : Result Bytes := do
  let _ ← genesis H deployment
  pure (Journal.bytes { schemaVersion := 1, deployment, entries := [] })

/-- One entry of the loop of `head`; the accumulator is the entries before it, whose requests the
source keeps in a set, and the value so far. -/
def headStep (deployment : String) (acc : List Entry × D) (entry : Entry) :
    Result (List Entry × D) := do
  let (seen, value) := acc
  refuseIf (!textId entry.requestId || !textId entry.activity ||
      seen.any (fun e => e.requestId == entry.requestId) || entry.authenticatedUid < 1000 ||
      entry.authenticatedUid ≥ 65534)
    "invalid, duplicate or service-identity Admin event"
  let _ ← decode 32 entry.payloadSha256
  let digest ← entryDigest H deployment seen.length entry
  pure (seen ++ [entry], H.extendValue value digest)

/-- `admin_journal::head`. -/
def Journal.head (journal : Journal) : Result D := do
  refuseIf (journal.schemaVersion != 1 || journal.entries.length > maxEvents)
    "invalid/oversized Admin journal"
  let _ ← decode 32 journal.deployment
  let first ← genesis H journal.deployment
  let (_, value) ← journal.entries.foldlM (headStep H journal.deployment)
    ([], H.extendValue H.zero first)
  pure value

end Head

/-! ## The world -/

/-- The two files of the journal's directory. -/
structure Directory where
  journal : Option Bytes
  pending : Option Bytes
deriving DecidableEq

/-- The directory that the system sees, the one a power loss would leave, and the TPM index. -/
structure Platform (D : Type) where
  current : Directory
  durable : Directory
  tpm : D

/-- Code of a process that holds the anchor. -/
abbrev Call (D : Type) := Calls (Platform D) Clock

inductive FileName where
  | journal
  | pending

def Directory.file (d : Directory) : FileName → Option Bytes
  | .journal => d.journal
  | .pending => d.pending

def noSuchFile : String := "No such file or directory (os error 2)"

section Store

variable {D : Type}

/-- `tpm::private_read`. -/
def privateRead (name : FileName) (limit : Nat) : Call D Bytes := call fun _ => do
  let bytes ← okOr ((← get).current.file name) noSuchFile
  refuseIf (bytes.length > limit) "unsafe/oversized private Admin state"
  pure bytes

/-- `has_pending`. -/
def hasPending : Call D Bool := call fun _ => do
  pure (← get).current.pending.isSome

/-- `File::open(parent)?.sync_all()`. -/
def syncDirectory : Call D Unit := call fun _ => modify fun p => { p with durable := p.current }

/-- `write_atomic(pending, bytes, 0o600)`: stage, rename, synchronise. -/
def writePending (bytes : Bytes) : Call D Unit := do
  call fun _ => pure ()
  call fun _ => modify fun p => { p with current := { p.current with pending := some bytes } }
  syncDirectory

/-- `fs::rename(pending, path)`. -/
def renamePending : Call D Unit := call fun _ => do
  let p ← get
  let bytes ← okOr p.current.pending noSuchFile
  set { p with current := { journal := some bytes, pending := none } }

/-- `sync_all` of the opened proposal. -/
def syncPending : Call D Unit := call fun _ => do
  let _ ← okOr (← get).current.pending noSuchFile
  pure ()

/-- `authorize(&entry)`, the owning service's decision at that moment. -/
def authorize : Call D Unit := call fun _ => pure ()

/-- `LocalAnchor::read`. -/
def anchorRead : Call D D := call fun _ => do
  pure (← get).tpm

/-- `LocalAnchor::clock`. -/
def anchorClock : Call D Clock := call fun clock => pure clock

variable (H : Hashing D)

/-- `luma_tpm_extend`: the TPM extends its index itself. -/
def tpmExtend (event : D) : Call D Unit :=
  call fun _ => modify fun p => { p with tpm := H.extendValue p.tpm event }

/-- `read_journal`. -/
def readJournal (name : FileName) : Call D (Journal × Bytes) := do
  let bytes ← privateRead name maxBytes
  let journal ← ofForeign (H.parse bytes)
  refuseIf (journal.bytes != bytes) "noncanonical Admin journal; preserve state"
  pure (journal, bytes)

variable [DecidableEq D]

/-- `LocalAnchor::advance`. -/
def advance (expected event : D) : Call D D := do
  let value ← anchorRead
  refuseIf (value != expected) "TPM checkpoint conflict; reconciliation required"
  tpmExtend H event
  let wanted := H.extendValue expected event
  let value ← anchorRead
  refuseIf (value != wanted) "TPM checkpoint outcome ambiguous; reconciliation required"
  pure wanted

/-! ## The store -/

/-- `Store`, less the anchor and the path, which are the world's. -/
structure Store where
  journal : Journal

/-- `Store::open`. -/
def Store.open : Call D Store := do
  let (journal, _) ← readJournal H .journal
  let expected ← journal.head H
  let value ← anchorRead
  refuseIf (value != expected) "Admin disk/TPM mismatch; explicit reconciliation required"
  let fenced ← hasPending
  refuseIf fenced "Admin pending transaction requires reconciliation"
  pure { journal }

/-- `Store::status`. -/
def Store.status (store : Store) : Call D Value := do
  let denied := "Admin checkpoint changed; authorization denied"
  let (current, _) ← readJournal H .journal
  let head ← current.head H
  let mine ← store.journal.head H
  refuseIf (head != mine) denied
  let value ← anchorRead
  refuseIf (value != head) denied
  let fenced ← hasPending
  refuseIf fenced denied
  let clock ← anchorClock
  pure (.object [("clock", clock.toJson), ("deployment", .string current.deployment),
    ("events", .number current.entries.length), ("gate_closing", .bool false),
    ("head", .string (H.hex head)), ("profile", .string "local-tpm2"),
    ("record_kind", .string "inert-audit-checkpoint"), ("schema_version", .number 1)])

/-- `Store::append`, with the store it leaves. -/
def Store.append (store : Store) (entry : Entry) : Call D Store := do
  let _ ← store.status H
  refuseIf (store.journal.entries.any fun old => old.requestId == entry.requestId)
    "duplicate Admin event requires semantic replay by its owning service"
  let clock ← anchorClock
  let _ ← clock.elapsedSince entry.clock
  let before ← store.journal.head H
  let digest ← entryDigest H store.journal.deployment store.journal.entries.length entry
  let next := store.journal.push entry
  let after ← next.head H
  let bytes := next.bytes
  refuseIf (bytes.length > maxBytes) "Admin journal capacity exhausted"
  authorize
  -- the proposal fences the journal until its outcome is known
  let fenced ← hasPending
  refuseIf fenced "pending Admin checkpoint; reconciliation required"
  writePending bytes
  authorize
  let changed := "Admin append inputs changed before TPM dispatch; preserve proposal"
  let (current, _) ← readJournal H .journal
  let (_, preparedBytes) ← readJournal H .pending
  let head ← current.head H
  refuseIf (head != before || preparedBytes != bytes) changed
  let value ← anchorRead
  refuseIf (value != before) changed
  let clock ← anchorClock
  let _ ← clock.elapsedSince entry.clock
  authorize
  let reached ← advance H before digest
  refuseIf (reached != after) "Admin checkpoint outcome ambiguous; reconciliation required"
  renamePending
  syncDirectory
  let store : Store := { journal := next }
  let _ ← store.status H
  pure store

/-! ## Recovery -/

structure Publication where
  schemaVersion : UInt32
  deployment : String
  previousEvents : Nat
  requestId : String
  previousHead : String
  committedHead : String
  journalSha256 : String
  pendingSha256 : String
deriving DecidableEq, Repr

def Publication.toJson (p : Publication) : Value :=
  .object [("schema_version", .number p.schemaVersion.toNat), ("deployment", .string p.deployment),
    ("previous_events", .number p.previousEvents), ("request_id", .string p.requestId),
    ("previous_head", .string p.previousHead), ("committed_head", .string p.committedHead),
    ("journal_sha256", .string p.journalSha256), ("pending_sha256", .string p.pendingSha256)]

/-- `admin_journal::publication`. -/
def publication : Call D Publication := do
  let (current, currentBytes) ← readJournal H .journal
  let (proposed, pendingBytes) ← readJournal H .pending
  let before ← current.head H
  let after ← proposed.head H
  refuseIf (proposed.deployment != current.deployment ||
      proposed.entries.length != current.entries.length + 1 ||
      !current.entries.isPrefixOf proposed.entries)
    "pending Admin journal is not an exact one-entry successor; preserve state"
  let value ← anchorRead
  refuseIf (value != after) "TPM does not prove the pending Admin commit; preserve state; no replay"
  let last ← okOr proposed.entries.getLast? "missing pending event"
  pure {
    schemaVersion := 1
    deployment := current.deployment
    previousEvents := current.entries.length
    requestId := last.requestId
    previousHead := H.hex before
    committedHead := H.hex after
    journalSha256 := H.hex (H.sha256 currentBytes)
    pendingSha256 := H.hex (H.sha256 pendingBytes) }

structure Recovery where
  publication : Publication
  observed : Clock

/-- `Recovery::inspect`. -/
def Recovery.inspect : Call D Recovery := do
  let observed ← anchorClock
  let publication ← Audit.publication H
  let clock ← anchorClock
  let _ ← clock.elapsedSince observed
  pure { publication, observed }

omit [DecidableEq D] in
/-- `Recovery::digest`. -/
def Recovery.digest (r : Recovery) : String :=
  H.hex (H.sha256 (domainTag "luma-native-admin-publication-v1" ++ toVec r.publication.toJson))

/-- `Recovery::publish`. -/
def Recovery.publish (r : Recovery) (reviewedDigest : String) : Call D Store := do
  let _ ← decode 32 reviewedDigest
  refuseIf (r.digest H != reviewedDigest) "Admin recovery review does not match current state"
  let found ← Audit.publication H
  refuseIf (found != r.publication)
    "Admin recovery inputs changed after review; preserve state"
  let clock ← anchorClock
  let _ ← clock.elapsedSince r.observed
  syncPending
  renamePending
  syncDirectory
  let store ← Store.open H
  let _ ← store.status H
  pure store

end Store

end LumaOS.Audit
