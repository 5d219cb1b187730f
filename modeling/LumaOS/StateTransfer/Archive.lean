import LumaOS.StateTransfer.Paths
import LumaOS.Text.Uri
import Mathlib.Data.List.Dedup

/-!
# State archives

`export_state`, `inspect_state_archive` and `restore_state` (`state_transfer.py:80-274`). An archive
is the list of its members, as `zipfile` writes and reads them, with the size of the file. A restore
changes a `Site`: the destination, the temporary directory beside it, and what lies outside of both.

The version of a database is read through a URI that its path is put into as it is
(`databaseSchemaVersion`). Where the path does not name itself there, SQLite opens another file, and
makes it if the URI lost its query.

`Outside` is what the code takes from elsewhere: SQLite on a database file, `json.loads`, `str` of a
value that is no string, the size `zipfile` compresses to, the clock, and the operating system,
which may refuse any write. `ReadsBack` and `Works` say when these do what they are there for.
-/

namespace LumaOS.StateTransfer

open LumaOS.Base LumaOS.Text LumaOS.Json LumaOS.Artifacts

def format : String := "luma-state-export.v1"
def manifestName : String := "manifest.json"
def databaseName : String := "luma.sqlite3"
def maxArchiveBytes : Nat := 16 * 1024 * 1024 * 1024
def maxManifestBytes : Nat := 1024 * 1024

/-- A value of `json.loads`. No code here looks into a `float`, nor into a string that has an
unpaired surrogate (`odd`). -/
inductive Loaded where
  | none
  | bool (b : Bool)
  | int (n : Int)
  | float
  | str (s : String)
  | odd
  | list (items : List Loaded)
  | dict (fields : List (String × Loaded))

/-- `value.get(key, default)` of a dictionary. -/
def Loaded.getD (value : Loaded) (key : String) (default : Loaded) : Loaded :=
  match value with
  | .dict fields => ((fields.find? fun f => f.1 == key).map Prod.snd).getD default
  | _ => default

/-- `value.get(key)`. -/
def Loaded.get (value : Loaded) (key : String) : Loaded := value.getD key .none

/-- `isinstance(value, int)`: a `bool` is one. -/
def Loaded.asInt : Loaded → Option Int
  | .int n => some n
  | .bool b => some (if b then 1 else 0)
  | _ => Option.none

mutual

/-- What `json.loads` returns for the text of a value. -/
def Loaded.ofValue : Value → Loaded
  | .null => .none
  | .bool b => .bool b
  | .number n => .int n
  | .string s => .str s
  | .array items => .list (Loaded.ofItems items)
  | .object fields => .dict (Loaded.ofFields fields)

def Loaded.ofItems : List Value → List Loaded
  | [] => []
  | v :: rest => Loaded.ofValue v :: Loaded.ofItems rest

def Loaded.ofFields : List (String × Value) → List (String × Loaded)
  | [] => []
  | (k, v) :: rest => (k, Loaded.ofValue v) :: Loaded.ofFields rest

end

/-- `_canonical_json`. -/
def canonicalJson (value : Value) : Bytes := toVec (sorted value) ++ [10]

/-! ## Archives -/

/-- A member, with `external_attr >> 16`. -/
structure Member where
  name : String
  mode : Nat
  content : Bytes

/-- A file given as an archive; `members` is absent where `zipfile` finds it malformed. -/
structure Archive where
  members : Option (List Member)
  bytes : Nat

/-- The rows that the manifest counts. -/
structure Counts where
  grants : Nat
  artifacts : Nat
  artifactVersions : Nat
  workflows : Nat
  receipts : Nat

/-- The files of a directory, by the parts of their paths. -/
abbrev Tree := List (List String × Bytes)

/-- A file that SQLite keeps beside the database. -/
def isSidecar (file : List String × Bytes) : Bool :=
  ["-journal", "-wal", "-shm"].any fun suffix => file.1 == [databaseName ++ suffix]

/-- What became of an attempt to read a version: the directory afterwards, and what was made outside
of it. -/
structure Opened where
  version : Except Failure Int
  directory : Tree
  outside : Tree

/-- What the code takes from elsewhere. -/
structure Outside where
  sha256 : Bytes → Vector UInt8 32
  /-- What `_database_schema_version` reads in a database with these files of SQLite beside it. -/
  schemaVersion : Bytes → Tree → Except Failure Int
  /-- The files of SQLite beside it afterwards. -/
  sidecars : Bytes → Tree → Tree
  sidecars_named : ∀ database before, ∀ f ∈ sidecars database before, isSidecar f = true
  /-- The same for a path that the URI does not lead to. -/
  elsewhere : Bytes → Tree → Opened
  /-- `content_hash` and `size_bytes` of the rows of `artifact_versions`. -/
  versions : Bytes → List (String × Int)
  counts : Bytes → Counts
  now : String
  packed : List Member → Nat
  loads : Bytes → Except Failure Loaded
  /-- `str(value)`. -/
  strOf : Loaded → String
  strOf_str : ∀ s, strOf (.str s) = s
  /-- What the operating system says to writing a file below the temporary directory. -/
  write : List String → Except Failure Unit
  /-- What it says to `os.replace` of that directory. -/
  replace : Except Failure Unit
  /-- `_sha256_file` of the archive, after the restore. -/
  digestFile : Except Failure String

variable (O : Outside)

/-- `path / DATABASE_NAME`, as it is put into the URI. -/
def databasePath (directory : Bytes) : Bytes := directory ++ ("/" ++ databaseName).toUTF8.data.toList

/-- `_database_schema_version(directory / DATABASE_NAME)`, of a directory with these files. -/
def databaseSchemaVersion (directory : Bytes) (tree : Tree) : Opened :=
  let path := databasePath directory
  if uriFile path = some path then
    match tree.find? fun f => f.1 == [databaseName] with
    | none =>
      ⟨.error (Failure.validation "State archive contains an invalid database"), tree, []⟩
    | some file =>
      let before := tree.filter isSidecar
      ⟨O.schemaVersion file.2 before,
        tree.filter (fun f => !isSidecar f) ++ O.sidecars file.2 before, []⟩
  else O.elsewhere path tree

/-! ## Export -/

/-- The state to export: the snapshot of its database, and the regular files under `objects`. -/
structure State where
  database : Bytes
  objects : String → Option Bytes

/-- An entry of the file inventory. -/
structure File where
  path : String
  sizeBytes : Nat
  sha256 : String

def File.toJson (f : File) : Value := .object [("path", .string f.path),
  ("size_bytes", .number f.sizeBytes), ("sha256", .string f.sha256)]

structure Manifest where
  createdAt : String
  schemaVersion : Int
  counts : Counts
  files : List File

def Manifest.toJson (m : Manifest) : Value := .object [("format", .string format),
  ("created_at", .string m.createdAt), ("application_version", .string "0.1.0"),
  ("database_schema_version", .number m.schemaVersion),
  ("counts", .object [("grants", .number m.counts.grants),
    ("artifacts", .number m.counts.artifacts),
    ("artifact_versions", .number m.counts.artifactVersions),
    ("workflows", .number m.counts.workflows), ("receipts", .number m.counts.receipts)]),
  ("files", .array (m.files.map File.toJson))]

/-- `SELECT DISTINCT content_hash,size_bytes FROM artifact_versions ORDER BY content_hash`. -/
def distinctRows (rows : List (String × Int)) : List (String × Int) :=
  rows.dedup.insertionSort fun a b => a.1 ≤ b.1

/-- The entry of an object, and of the database. -/
def File.ofObject (object : String × Bytes) : File :=
  ⟨objectPath object.1, object.2.length, object.1⟩

def File.ofDatabase (database : Bytes) : File :=
  ⟨databaseName, database.length, contentHash O.sha256 database⟩

/-- A member as `_zip_info` makes it. -/
def member (name : String) (content : Bytes) : Member := ⟨name, 0o600, content⟩

/-- The manifest of an export. -/
def exportManifest (database : Bytes) (version : Int) (objects : List (String × Bytes)) :
    Manifest where
  createdAt := O.now
  schemaVersion := version
  counts := O.counts database
  files := File.ofDatabase O database :: objects.map File.ofObject

/-- The members of an export. -/
def exportMembers (database : Bytes) (version : Int) (objects : List (String × Bytes)) :
    List Member :=
  member manifestName (canonicalJson (exportManifest O database version objects).toJson) ::
    member databaseName database :: objects.map fun o => member (objectPath o.1) o.2

/-- `stat.S_IFLNK`. -/
def isSymlink (m : Member) : Bool := m.mode &&& 0o170000 == 0o120000

/-- `archive.getinfo(name)`. -/
def getInfo (members : List Member) (name : String) : Option Member :=
  members.find? fun m => m.name == name

/-- `isinstance(value, dict)`. -/
def Loaded.isDict : Loaded → Bool
  | .dict _ => true
  | _ => false

/-- `str(entry.get("path", ""))`. -/
def entryPath (entry : Loaded) : String := O.strOf (entry.getD "path" (.str ""))

def entryDigest (entry : Loaded) : Except Failure String :=
  match entry.get "sha256" with
  | .str digest => do
    raiseIf (!isHash digest)
      (Failure.validation "State archive inventory contains an invalid digest")
    pure digest
  | _ => .error (Failure.validation "State archive inventory contains an invalid digest")

def entrySize (entry : Loaded) : Except Failure Nat :=
  match (entry.get "size_bytes").asInt with
  | some size => do
    raiseIf (size < 0) (Failure.validation "State archive inventory contains an invalid size")
    pure size.toNat
  | none => .error (Failure.validation "State archive inventory contains an invalid size")

/-- What the loop over the inventory has seen: the expected names and the total size. -/
abbrev Seen := List String × Nat

/-- One entry of the inventory. -/
def checkEntry (members : List Member) (seen : Seen) (entry : Loaded) : Except Failure Seen := do
  raiseIf (!entry.isDict) (Failure.validation "State archive file inventory is invalid")
  let name := entryPath O entry
  let _ ← safeMember name
  let digest ← entryDigest entry
  let size ← entrySize entry
  raiseIf (seen.1.contains name)
    (Failure.validation "State archive inventory contains duplicate paths")
  raiseIf (seen.2 + size > maxArchiveBytes)
    (Failure.validation "State archive expands beyond the supported size limit")
  let info ← fetch (getInfo members name)
    (Failure.validation "State archive is missing inventoried content")
  raiseIf (info.content.length != size)
    (Failure.validation "State archive content size does not match its manifest")
  raiseIf (contentHash O.sha256 info.content != digest)
    (Failure.validation "State archive content digest does not match its manifest")
  pure (seen.1 ++ [name], seen.2 + size)

/-- The file inventory of a manifest. -/
def inventory (manifest : Loaded) : Except Failure (List Loaded) :=
  match manifest.get "files" with
  | .list (entry :: entries) => .ok (entry :: entries)
  | _ => .error (Failure.validation "State archive manifest has no file inventory")

/-- `not isinstance(manifest, dict) or manifest.get("format") != FORMAT`. -/
def formatSupported (manifest : Loaded) : Bool :=
  match manifest.get "format" with
  | .str f => f == format
  | _ => false

/-- The destination, the temporary directory, and the files that were written outside of both. -/
structure Site where
  target : Option Tree
  temporary : Option Tree
  escaped : Tree

/-- A file on the way, or a directory in the place of the file. -/
def Tree.blocks (t : Tree) (path : List String) : Bool :=
  path.isEmpty ||
    t.any fun f => f.1 != path && (f.1.isPrefixOf path || path.isPrefixOf f.1)

/-- The check of the restored database, and `os.replace`. -/
def publish (directory : Bytes) (version : Int) : Proc Failure Site Unit := do
  let site ← get
  let opened := databaseSchemaVersion O directory (site.temporary.getD [])
  modify fun site =>
    { site with temporary := some opened.directory, escaped := opened.outside ++ site.escaped }
  let observed ← opened.version
  raiseIf (observed != version)
    (Failure.validation "Restored database schema does not match the archive manifest")
  O.replace
  modify fun site => { site with target := site.temporary, temporary := none }

end LumaOS.StateTransfer
