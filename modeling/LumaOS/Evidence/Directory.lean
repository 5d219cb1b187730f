import LumaOS.Base.Uncut
import LumaOS.Json.Decode
import LumaOS.Text.Affix

/-!
# The store's directory

The files of `/var/lib/.../resources` as the store sees them: a name, what `fstat` shows of the file
behind it, and its bytes. `identity` (`resources/retention.rs:30-82`) and `stage_identity`
(`requests/journal.rs:136-185`) are one function with two limits, `private_read` is
`tpm.rs:1025-1046`.

The directory itself is private and nobody writes to it from outside, so the second look of
`identity` at the file it has read agrees with the first. A read or a listing that fails for a reason
of its own ends the call where it stands; `observe` is a read that may do so.
-/

namespace LumaOS.Evidence

open LumaOS.Base LumaOS.Text LumaOS.Json

/-- `fs::Metadata`, without the length. -/
structure Stat where
  isFile : Bool
  uid : UInt32
  mode : UInt32
  nlink : UInt64
  device : UInt64
  inode : UInt64
  modified : Int64
  modifiedNs : Int64
  changed : Int64
  changedNs : Int64
deriving DecidableEq

structure File where
  stat : Stat
  bytes : Bytes
deriving DecidableEq

/-- The directory and its `(st_dev, st_ino)`. -/
structure Directory where
  identity : UInt64 × UInt64
  files : Table File

/-- `retention::Identity`, and `journal::StageIdentity`. -/
structure Identity where
  device : UInt64
  inode : UInt64
  length : UInt64
  modified : Int64
  modifiedNs : Int64
  changed : Int64
  changedNs : Int64
  sha256 : String
deriving DecidableEq

/-- `bundle::hex(&Sha256::digest(bytes))`. -/
def digest (sha256 : Bytes → Vector UInt8 32) (bytes : Bytes) : String := hex (sha256 bytes).toList

/-- `Identity` of a file that was read whole. -/
def File.observed (sha256 : Bytes → Vector UInt8 32) (f : File) : Identity where
  device := f.stat.device
  inode := f.stat.inode
  length := UInt64.ofNat f.bytes.length
  modified := f.stat.modified
  modifiedNs := f.stat.modifiedNs
  changed := f.stat.changed
  changedNs := f.stat.changedNs
  sha256 := digest sha256 f.bytes

/-- The custody that `identity` asks for. -/
def File.exact (limit : Nat) (f : File) : Bool :=
  f.stat.isFile && f.stat.uid == 0 && f.stat.mode &&& 0o7777 == 0o600 && f.stat.nlink == 1 &&
    f.bytes.length ≤ limit

/-- The custody that `private_read` asks for; the store runs as root. -/
def File.isPrivate (limit : Nat) (f : File) : Bool :=
  f.stat.isFile && f.stat.uid == 0 && f.stat.mode &&& 0o077 == 0 && f.stat.nlink == 1 &&
    f.bytes.length ≤ limit

namespace Directory

variable (sha256 : Bytes → Vector UInt8 32)

/-- The file that a path names. -/
def find (d : Directory) (name : String) : Result File :=
  okOr d.files[name]? "No such file or directory (os error 2)"

/-- `identity`, and `stage_identity` with its own limit and message. -/
def identityOf (limit : Nat) (unsafeMessage : String) (d : Directory) (name : String) :
    Result Identity := do
  let f ← d.find name
  refuseIf (!f.exact limit) unsafeMessage
  pure (f.observed sha256)

/-- `tpm::private_read`. -/
def privateRead (limit : Nat) (d : Directory) (name : String) : Result Bytes := do
  let f ← d.find name
  refuseIf (!f.isPrivate limit) "unsafe/oversized private Admin state"
  pure f.bytes

end Directory

/-! ## System calls -/

/-- What the file system shows of a file it has just written. -/
structure Seen where
  device : UInt64
  inode : UInt64
  time : Int64
  timeNs : Int64
  umask : UInt32
  /-- How much of a record reaches the file before its last `write`. -/
  part : Nat

/-- What is written before the last `write` is never all of it. -/
def Seen.before (seen : Seen) (bytes : Bytes) : Nat := min seen.part (bytes.length - 1)

/-- A read of the directory, which may fail. -/
def observe {α : Type} (read : Directory → Result α) : Calls Directory Seen α :=
  call fun _ => do
    let d ← get
    liftM (read d)

/-- A call that changes nothing here: a boundary check, `verify_exclusion` or `fsync`. -/
def probe : Calls Directory Seen Unit := call fun _ => pure ()

/-- A file as `open(O_CREAT | O_EXCL, 0o600)` leaves it. -/
def created (seen : Seen) : File where
  stat :=
    { isFile := true, uid := 0, mode := 0o600 &&& ~~~seen.umask, nlink := 1, device := seen.device
      inode := seen.inode, modified := seen.time, modifiedNs := seen.timeNs, changed := seen.time
      changedNs := seen.timeNs }
  bytes := []

/-- A file with more bytes at its end. -/
def File.append (f : File) (bytes : Bytes) (seen : Seen) : File where
  stat :=
    { f.stat with
      modified := seen.time, modifiedNs := seen.timeNs, changed := seen.time
      changedNs := seen.timeNs }
  bytes := f.bytes ++ bytes

/-- `openat(O_CREAT | O_EXCL)`. -/
def create (name : String) : Calls Directory Seen Unit := call fun seen => do
  let d ← get
  refuseIf (d.files.contains name) "File exists (os error 17)"
  set { d with files := d.files.insert name (created seen) }

/-- Every `write` but the last. -/
def write (name : String) (bytes : Bytes) : Calls Directory Seen Nat := call fun seen => do
  modify fun d =>
    { d with files := d.files.modify name fun f => f.append (bytes.take (seen.before bytes)) seen }
  pure (seen.before bytes)

/-- `File::write_all`: a first part, and the rest. -/
def writeAll (name : String) (bytes : Bytes) : Calls Directory Seen Unit := do
  let n ← write name bytes
  call fun seen =>
    modify fun d =>
      { d with files := d.files.modify name fun f => f.append (bytes.drop n) seen }

/-- `unlinkat`. -/
def unlink (name : String) : Calls Directory Seen Unit := call fun _ => do
  let d ← get
  refuseIf (!d.files.contains name) "No such file or directory (os error 2)"
  set { d with files := d.files.erase name }

/-- `retention::publish_evidence` (`retention.rs:482-502`). -/
def publishEvidence (name : String) (bytes : Bytes) : Calls Directory Seen Unit := do
  create name
  writeAll name bytes
  probe
  probe

end LumaOS.Evidence
