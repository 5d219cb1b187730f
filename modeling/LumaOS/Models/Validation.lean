import LumaOS.Models.Configuration
import LumaOS.Base.Interrupt

/-!
# The validation trial of a model

Model of `model/validation.rs:6-92`, `:94-200` and `:225-652`. A controller that reconfigures the
worker publishes a `Record` of itself in `model-validation.pending` (`Guard::begin`) and removes it
when the trial is complete. When it dies in between, an operator inspects what it left and retains
it: `retain_abandoned` for a complete record, `retain_incomplete` for bytes that stop inside it.
Either archives the exact bytes and then removes the record.

A call may be cut off between any two changes of the disk (`Base.Calls`). A file is created empty,
then given its mode, then written; `write_all` may be cut off behind any byte. Reading fails like a
cut in front of the next change, so `look` itself does not fail. `fsync` is left out: a process that
is killed loses nothing it has written.
-/

namespace LumaOS.Models

open LumaOS.Base LumaOS.Text LumaOS.Json

/-! ## The state directory -/

/-- `file_identity` (`validation.rs:534-543`). The kernel has no inode 0. -/
structure FileIdentity where
  device : UInt64
  inode : UInt64
  ctime : Int
  ctimeNsec : Int
  inode_ne : inode ≠ 0
deriving DecidableEq

/-- A regular file of root's with one link. -/
structure File where
  bytes : Bytes
  mode : Nat
  identity : FileIdentity
deriving DecidableEq

/-- The files of `/var/lib/luma-os` that the model commands read and write. -/
structure Disk where
  config : Configuration
  /-- `model-activation.pending`. -/
  marker : Option Bytes
  /-- `model-activation.prior`. -/
  backup : Option Bytes
  /-- `model-rollback.json`. -/
  rollback : Option Bytes
  /-- `model-quarantine.json`. -/
  quarantine : Option Bytes
  /-- `model-validation.pending`. -/
  pending : Option File
  /-- `model-validation.lock`. -/
  lease : Option File
  /-- `model-validation.retained.*`, by name. -/
  archives : Table File

/-- What the kernel adds to a change of the disk. -/
structure Seen where
  /-- The identity of a file created or changed now. -/
  identity : FileIdentity
  /-- The process's file mode creation mask. -/
  umask : Nat
  /-- How many bytes `write_all` gets to write before it is cut off. -/
  written : Nat

/-- Reading the directory. -/
def look : Calls Disk Seen Disk := ExceptT.mk fun s => (.ok s.world, s)

/-- `open` with `create_new(true).mode(mode)`. -/
def createdFile (mode : Nat) (seen : Seen) : File :=
  ⟨[], mode &&& (0o777 ^^^ (seen.umask &&& 0o777)), seen.identity⟩

/-- A change of a file keeps its inode. -/
def File.touched (f : File) (seen : Seen) : File :=
  { f with identity := { f.identity with
      ctime := seen.identity.ctime, ctimeNsec := seen.identity.ctimeNsec } }

/-- `set_permissions`. -/
def File.chmod (f : File) (mode : Nat) (seen : Seen) : File := { f.touched seen with mode }

/-- `write`. -/
def File.append (f : File) (bytes : Bytes) (seen : Seen) : File :=
  { f.touched seen with bytes := f.bytes ++ bytes }

/-- How much of `bytes` a cut of `write_all` leaves: anything but the whole. -/
def Seen.part (seen : Seen) (bytes : Bytes) : Nat := min seen.written (bytes.length - 1)

/-- `write_all`: the writes in front of a cut, and the others. -/
def writeAll (change : (File → File) → Disk → Disk) (bytes : Bytes) : Calls Disk Seen Unit := do
  let written ← call fun seen => do
    modify (change fun f => f.append (bytes.take (seen.part bytes)) seen)
    pure (seen.part bytes)
  call fun seen => modify (change fun f => f.append (bytes.drop written) seen)

/-- `activation_records_absent` (`model.rs:1440-1451`). -/
def activationRecordsAbsent (d : Disk) : Result Unit := do
  refuseIf d.marker.isSome "model activation pending; reviewed reconciliation required"
  refuseIf d.backup.isSome "model activation pending; reviewed reconciliation required"

/-! ## The record -/

/-- `MAX_RECORD`. -/
def maxRecord : Nat := 8192

/-- `Record` (`validation.rs:11-25`). -/
structure Record where
  schemaVersion : UInt32
  incidentId : String
  controllerPid : UInt32
  controllerStartTicks : UInt64
  bootId : String
  leaseDevice : UInt64
  leaseInode : UInt64
  candidate : String
  candidateSha256 : String
  catalogSha256 : String
  hashes : Hashes
deriving DecidableEq

def Record.fields (r : Record) : List (String × Value) :=
  [("schema_version", u32Json r.schemaVersion), ("incident_id", .string r.incidentId),
    ("controller_pid", u32Json r.controllerPid),
    ("controller_start_ticks", u64Json r.controllerStartTicks), ("boot_id", .string r.bootId),
    ("lease_device", u64Json r.leaseDevice), ("lease_inode", u64Json r.leaseInode),
    ("candidate", .string r.candidate), ("candidate_sha256", .string r.candidateSha256),
    ("catalog_sha256", .string r.catalogSha256), ("hashes", r.hashes.toJson)]

def Record.ofJson (v : Value) : Option Record := do
  let schemaVersion ← (v.get "schema_version").asU32
  let incidentId ← (v.get "incident_id").asStr
  let controllerPid ← (v.get "controller_pid").asU32
  let controllerStartTicks ← (v.get "controller_start_ticks").asU64
  let bootId ← (v.get "boot_id").asStr
  let leaseDevice ← (v.get "lease_device").asU64
  let leaseInode ← (v.get "lease_inode").asU64
  let candidate ← (v.get "candidate").asStr
  let candidateSha256 ← (v.get "candidate_sha256").asStr
  let catalogSha256 ← (v.get "catalog_sha256").asStr
  let hashes ← Hashes.ofJson (v.get "hashes")
  pure { schemaVersion, incidentId, controllerPid, controllerStartTicks, bootId, leaseDevice,
         leaseInode, candidate, candidateSha256, catalogSha256, hashes }

/-- `serde_json::to_vec(&record)`. -/
def Record.bytes (r : Record) : Bytes := toVec (.object r.fields)

/-- `tpm::decode::<N>(value).is_err()`. -/
def notHex (n : Nat) (value : String) : Bool := (decode n value).toBool == false

/-- `record_bytes` (`validation.rs:62-68`). -/
def recordBytes (d : Disk) : Result (Option Bytes) := do
  let bytes ← boundedFile maxRecord (d.pending.map File.bytes)
  refuseIf (d.pending.any fun f => f.mode &&& 0o7777 != 0o644)
    "unsafe model validation record mode; preserve state"
  pure bytes

/-- `decode` (`validation.rs:70-92`). -/
def Record.decode (O : Outside) (bytes : Bytes) (resolve : String → Result Profile) :
    Result Record := do
  let record ← okOr (decodeAs Record.ofJson bytes)
    "invalid model validation record; preserve state"
  let candidate ← resolve record.candidate
  refuseIf (record.bytes != bytes || record.schemaVersion != 1 || record.controllerPid == 0 ||
      decide (2 ^ 31 - 1 < record.controllerPid.toNat) || record.controllerStartTicks == 0 ||
      record.leaseInode == 0 || notHex 16 record.incidentId || notHex 16 record.bootId ||
      record.bootId == repeatText "00" 16 || candidate.id != record.candidate ||
      candidate.sha256 != record.candidateSha256 || record.catalogSha256 != O.catalogBinding ||
      [record.hashes.selection, record.hashes.environment, record.hashes.key].any fun h =>
        h.all fun value => notHex 32 value)
    "model validation catalog or canonical binding changed; preserve state"
  pure record

/-! ## The lock -/

/-- What a call finds out about the locks on the lock file: whether `flock` and `F_SETLK` grant
them, and whom `F_GETLK` names. -/
structure Locks where
  flock : Bool
  posix : Bool
  holder : Option UInt32

/-- The calling process. -/
structure Process where
  pid : UInt32
  startTicks : UInt64
  bootId : String
  pid_ne : pid ≠ 0
  pid_le : pid.toNat ≤ 2 ^ 31 - 1
  startTicks_ne : startTicks ≠ 0
  bootId_hex : ∃ bytes, decode 16 bootId = .ok bytes
  bootId_ne : bootId ≠ repeatText "00" 16

/-- `checked_lock` (`validation.rs:126-147`). -/
def checkedLock (d : Disk) : Result File := do
  let lease ← okOr d.lease "No such file or directory (os error 2)"
  refuseIf (lease.mode &&& 0o7777 != 0o644 || lease.bytes.length != 0)
    "unsafe or replaced model validation lock; preserve state"
  pure lease

/-- `lock_file` (`validation.rs:94-124`). -/
def lockFile (create : Bool) : Calls Disk Seen File := do
  let d ← look
  if create && d.lease.isNone then
    call fun seen => modify fun d => { d with lease := some (createdFile 0o644 seen) }
    call fun seen => modify fun d => { d with lease := d.lease.map fun f => f.chmod 0o644 seen }
  let d ← look
  liftM (checkedLock d)

/-- `checked_recovery_lock` (`validation.rs:414-420`). -/
def checkedRecoveryLock (locks : Locks) (d : Disk) : Result Unit := do
  let _ ← checkedLock d
  refuseIf locks.holder.isSome
    "model validation controller/lock is live or uncertain; preserve state"

/-- `recovery_lock` (`validation.rs:401-412`). -/
def recoveryLock (locks : Locks) : Calls Disk Seen File := do
  let lease ← lockFile false
  liftM (refuseIf (!locks.flock)
    "model validation controller/recovery is live or uncertain; preserve state")
  let d ← look
  liftM (checkedRecoveryLock locks d)
  pure lease

/-! ## `Guard::begin` -/

/-- `consistent_current` (`validation.rs:195-223`). -/
def consistentCurrent (O : Outside) (resolve : String → Result Profile) :
    Calls Disk Seen (Hashes × Option Profile) := do
  let d ← look
  let snapshot ← activationSnapshot d.config
  let current ← priorRestoreProfile snapshot resolve
  match current with
  | some p => liftM (O.weights p)
  | none => pure ()
  let before := snapshot.hashes O
  let d ← look
  let again ← activationSnapshot d.config
  liftM (refuseIf (again.hashes O != before) "model configuration changed during validation review")
  pure (before, current)

/-- The closure that resolves the candidate only. -/
def candidateOnly (p : Profile) (id : String) : Result Profile := do
  refuseIf (id != p.id) "model validation candidate changed"
  pure p

/-- The fields of `Guard` (`validation.rs:225-230`) besides the open descriptor. -/
structure Guard where
  bytes : Bytes
  record : Record

/-- `Guard::check` (`validation.rs:291-312`). -/
def Guard.check (O : Outside) (g : Guard) (p : Profile) (who : Process) : Calls Disk Seen Unit := do
  let d ← look
  let lease ← checkedLock d
  let current ← activationSnapshot d.config
  let bytes ← recordBytes d
  liftM (refuseIf (g.record.controllerPid != who.pid ||
      g.record.controllerStartTicks != who.startTicks || g.record.bootId != who.bootId ||
      lease.identity.device != g.record.leaseDevice || lease.identity.inode != g.record.leaseInode ||
      p.id != g.record.candidate || p.sha256 != g.record.candidateSha256 ||
      current.hashes O != g.record.hashes || bytes != some g.bytes)
    "model validation controller/configuration binding changed")

/-- `Guard::begin` (`validation.rs:232-289`). `incident` is what `/dev/urandom` returns. -/
def Guard.begin (O : Outside) (p : Profile) (who : Process) (locks : Locks)
    (incident : { bytes : Bytes // bytes.length = 16 }) : Calls Disk Seen Guard := do
  let d ← look
  liftM (refuseIf d.pending.isSome "model validation pending; preserve state")
  let lease ← lockFile true
  liftM (refuseIf (!locks.flock) "model validation/recovery lease is already active")
  liftM (refuseIf (!locks.posix) "model validation controller already active")
  let (snapshot, current) ← consistentCurrent O (candidateOnly p)
  liftM (refuseIf current.isNone "model validation candidate missing")
  let record : Record :=
    { schemaVersion := 1, incidentId := hex incident.val, controllerPid := who.pid,
      controllerStartTicks := who.startTicks, bootId := who.bootId,
      leaseDevice := lease.identity.device, leaseInode := lease.identity.inode,
      candidate := p.id, candidateSha256 := p.sha256, catalogSha256 := O.catalogBinding,
      hashes := snapshot }
  call fun seen => modify fun d => { d with pending := some (createdFile 0o644 seen) }
  call fun seen => modify fun d => { d with pending := d.pending.map fun f => f.chmod 0o644 seen }
  writeAll (fun change d => { d with pending := d.pending.map change }) record.bytes
  let guard : Guard := ⟨record.bytes, record⟩
  guard.check O p who
  pure guard

/-! ## Inspection and retention -/

/-- `Observation` (`validation.rs:371-378`). -/
structure Observation where
  review : String
  current : Option Profile
  archive : String
  bytes : Bytes
  hashes : Hashes
  identity : Option FileIdentity
deriving DecidableEq

/-- The name a record is retained under. -/
def archiveName (O : Outside) (bytes : Bytes) : String :=
  "model-validation.retained." ++ O.digest bytes

/-- `checked_activation_bytes_with_mode(.., MAX_RECORD, 0, 0o077)`. -/
def archivedBytes (d : Disk) (name : String) : Result (Option Bytes) := do
  refuseIf (d.archives[name]?.any fun f => f.mode &&& 0o077 != 0)
    "unsafe model activation file; preserve state"
  boundedFile maxRecord (d.archives[name]?.map File.bytes)

/-- An archive of the name, if there is one, holds these bytes. -/
def checkArchive (d : Disk) (name : String) (bytes : Bytes) : Result Unit := do
  let retained ← archivedBytes d name
  refuseIf (retained.any fun r => r != bytes) "model validation retention conflict; preserve state"

def profileDigest (current : Option Profile) : Bytes :=
  (current.map fun p => utf8 p.sha256).getD []

/-- `independent_typed_owner` (`validation.rs:389-399`). -/
def independentTypedOwner (O : Outside) (who : Process) (resolve : String → Result Profile) :
    Calls Disk Seen Unit := do
  let d ← look
  liftM (activationRecordsAbsent d)
  let bytes ← recordBytes d
  let bytes ← okOr bytes "no retained model validation"
  let record ← Record.decode O bytes resolve
  liftM (refuseIf (record.controllerPid == who.pid)
    "validation belongs to this process; preserve state")

/-- `inspect_locked` (`validation.rs:422-473`). -/
def inspectLocked (O : Outside) (locks : Locks) (lease : File)
    (resolve : String → Result Profile) : Calls Disk Seen Observation := do
  let d ← look
  liftM (activationRecordsAbsent d)
  let bytes ← recordBytes d
  let bytes ← okOr bytes "no retained model validation"
  let record ← Record.decode O bytes resolve
  liftM (refuseIf (lease.identity.device != record.leaseDevice ||
      lease.identity.inode != record.leaseInode)
    "model validation controller/lock is live or uncertain; preserve state")
  liftM (checkedRecoveryLock locks d)
  let (currentHashes, current) ← consistentCurrent O resolve
  let d ← look
  liftM (activationRecordsAbsent d)
  liftM (checkedRecoveryLock locks d)
  let again ← recordBytes d
  let config ← activationSnapshot d.config
  liftM (refuseIf (again != some bytes || config.hashes O != currentHashes)
    "model validation changed during recovery inspection")
  let archive := archiveName O bytes
  liftM (checkArchive d archive bytes)
  pure
    { review := O.digest (utf8 "luma-model-abandoned-validation-review-v1\x00" ++ bytes ++
        toVec currentHashes.toJson ++ profileDigest current)
      current, archive, bytes, hashes := currentHashes, identity := none }

/-- `inspect` (`validation.rs:380-387`). -/
def inspect (O : Outside) (who : Process) (locks : Locks) (resolve : String → Result Profile) :
    Calls Disk Seen Observation := do
  independentTypedOwner O who resolve
  let lease ← recoveryLock locks
  inspectLocked O locks lease resolve

def FileIdentity.toJson (i : FileIdentity) : Value :=
  .array [u64Json i.device, u64Json i.inode, .number i.ctime, .number i.ctimeNsec]

/-- `incomplete_bytes` (`validation.rs:545-557`). -/
def incompleteBytes (d : Disk) : Result (Bytes × FileIdentity) := do
  let file ← okOr d.pending "No such file or directory (os error 2)"
  let bytes ← recordBytes d
  let bytes ← okOr bytes "no retained model validation"
  refuseIf (fromSlice bytes matches .ok _ | .error .malformed)
    "model validation is not incomplete JSON; preserve state"
  pure (bytes, file.identity)

/-- `inspect_incomplete_locked` (`validation.rs:559-607`). -/
def inspectIncompleteLocked (O : Outside) (locks : Locks) (lease : File)
    (resolve : String → Result Profile) : Calls Disk Seen Observation := do
  let d ← look
  liftM (activationRecordsAbsent d)
  liftM (checkedRecoveryLock locks d)
  let (bytes, identity) ← incompleteBytes d
  let (currentHashes, current) ← consistentCurrent O resolve
  let d ← look
  liftM (activationRecordsAbsent d)
  liftM (checkedRecoveryLock locks d)
  let again ← incompleteBytes d
  let config ← activationSnapshot d.config
  liftM (refuseIf (again != (bytes, identity) || config.hashes O != currentHashes)
    "incomplete model validation/configuration changed during inspection")
  let archive := archiveName O bytes
  liftM (checkArchive d archive bytes)
  pure
    { review := O.digest (utf8 "luma-model-incomplete-validation-review-v1\x00" ++
        utf8 O.catalogBinding ++ bytes ++ toVec identity.toJson ++
        toVec (.array [u64Json lease.identity.device, u64Json lease.identity.inode]) ++
        toVec currentHashes.toJson ++ profileDigest current)
      current, archive, bytes, hashes := currentHashes, identity := some identity }

/-- `inspect_incomplete` (`validation.rs:609-616`). -/
def inspectIncomplete (O : Outside) (locks : Locks) (resolve : String → Result Profile) :
    Calls Disk Seen Observation := do
  let d ← look
  liftM (activationRecordsAbsent d)
  let lease ← recoveryLock locks
  inspectIncompleteLocked O locks lease resolve

/-- A new archive, as `retain_bytes` writes it (`validation.rs:516-524`). -/
def createArchive (name : String) (bytes : Bytes) : Calls Disk Seen Unit := do
  call fun seen => modify fun d =>
    { d with archives := d.archives.insert name (createdFile 0o600 seen) }
  call fun seen => modify fun d =>
    { d with archives := d.archives.modify name fun f => f.chmod 0o600 seen }
  writeAll (fun change d => { d with archives := d.archives.modify name change }) bytes

/-- `retain_bytes` (`validation.rs:510-532`). -/
def retainBytes (name : String) (bytes : Bytes) : Calls Disk Seen Unit := do
  let d ← look
  let retained ← archivedBytes d name
  match retained with
  | some r => liftM (refuseIf (r != bytes) "model validation retention conflict; preserve state")
  | none => createArchive name bytes
  let d ← look
  let retained ← archivedBytes d name
  liftM (refuseIf (retained != some bytes) "model validation retention changed; preserve state")

/-- `fs::remove_file` of the record. -/
def removePending : Calls Disk Seen Unit := call fun _ => modify fun d => { d with pending := none }

/-- `retain_abandoned` (`validation.rs:475-508`). -/
def retainAbandoned (O : Outside) (who : Process) (locks : Locks) (reviewed : String)
    (resolve : String → Result Profile) : Calls Disk Seen String := do
  let _ ← decode 32 reviewed
  independentTypedOwner O who resolve
  let lease ← recoveryLock locks
  let observed ← inspectLocked O locks lease resolve
  liftM (refuseIf (observed.review != reviewed)
    "model validation review changed; preserve state")
  retainBytes observed.archive observed.bytes
  let current ← inspectLocked O locks lease resolve
  let d ← look
  let retained ← archivedBytes d observed.archive
  liftM (refuseIf (current.review != observed.review || current.hashes != observed.hashes ||
      retained != some observed.bytes)
    "model validation changed after retention; preserve state")
  liftM (checkedRecoveryLock locks d)
  liftM (activationRecordsAbsent d)
  let again ← recordBytes d
  let config ← activationSnapshot d.config
  liftM (refuseIf (again != some observed.bytes || config.hashes O != observed.hashes)
    "model validation/configuration changed before clearance")
  removePending
  pure observed.archive

/-- `retain_incomplete` (`validation.rs:618-652`). -/
def retainIncomplete (O : Outside) (locks : Locks) (reviewed : String)
    (resolve : String → Result Profile) : Calls Disk Seen String := do
  let _ ← decode 32 reviewed
  let d ← look
  liftM (activationRecordsAbsent d)
  let lease ← recoveryLock locks
  let observed ← inspectIncompleteLocked O locks lease resolve
  liftM (refuseIf (observed.review != reviewed)
    "incomplete model validation review changed; preserve state")
  retainBytes observed.archive observed.bytes
  let current ← inspectIncompleteLocked O locks lease resolve
  let d ← look
  let retained ← archivedBytes d observed.archive
  liftM (refuseIf (current.review != observed.review || current.hashes != observed.hashes ||
      retained != some observed.bytes)
    "incomplete model validation changed after retention; preserve state")
  liftM (checkedRecoveryLock locks d)
  liftM (activationRecordsAbsent d)
  let again ← incompleteBytes d
  let identity ← okOr observed.identity "incomplete validation identity missing"
  let config ← activationSnapshot d.config
  liftM (refuseIf (again != (observed.bytes, identity) || config.hashes O != observed.hashes)
    "incomplete model validation/configuration changed before clearance")
  removePending
  pure observed.archive

end LumaOS.Models
