import LumaOS.StateTransfer.Restore
import LumaOS.Json.Size

/-!
# Exports, restored

An export of intact state is always written. It is accepted, and restored to the snapshot that it
was made of, if and only if the manifest and the files of the state keep within the limits of the
reader, the schema is one that this build knows, the archive can be read once more for its digest,
and SQLite reads the restored database and leaves no files beside it (`export_restores_iff`).
`export_state` itself checks none of these.
-/

namespace LumaOS.StateTransfer

open LumaOS.Base LumaOS.Text LumaOS.Json LumaOS.Artifacts

open Proc

variable {O : Outside} {s : State} {objects : List (String × Bytes)} {version : Int}
  {directory : Bytes}

/-- **The directory is the snapshot**: the database and, for every version in it, its object. -/
structure Snapshot (O : Outside) (s : State) (tree : Tree) : Prop where
  nodup : (tree.map Prod.fst).Nodup
  database : ([databaseName], s.database) ∈ tree
  readable : ∀ row ∈ O.versions s.database, ∃ content, s.objects row.1 = some content ∧
    contentHash O.sha256 content = row.1 ∧ (content.length : Int) = row.2 ∧
      (objectParts row.1, content) ∈ tree
  exact : ∀ file ∈ tree, file = ([databaseName], s.database) ∨
    ∃ row ∈ O.versions s.database, ∃ content, s.objects row.1 = some content ∧
      file = (objectParts row.1, content)

/-- The database and the objects of the state, as a directory. -/
def stateTree (O : Outside) (s : State) : Tree :=
  restoredTree s.database ((distinctRows (O.versions s.database)).map fun row =>
    (row.1, (s.objects row.1).getD []))

/-- **SQLite reads the version, and leaves nothing behind**: where the URI names the database itself,
it keeps no files beside it; where it leads elsewhere, what is there says the same version, and
nothing is changed or made. -/
structure Opens (O : Outside) (directory : Bytes) (s : State) (version : Int) : Prop where
  plain : Plain (databasePath directory) →
    O.schemaVersion s.database [] = .ok version ∧ O.sidecars s.database [] = []
  elsewhere : ¬Plain (databasePath directory) → ∃ opened,
    O.elsewhere (databasePath directory) (stateTree O s) = opened ∧
      opened.version = .ok version ∧ Snapshot O s opened.directory ∧ opened.outside = []

/-- The first bytes of a database. -/
def sampleDatabase : Bytes := [83, 81, 76, 105, 116, 101, 32, 102, 111, 114, 109, 97, 116, 32, 51, 0]

/-- SHA-256 of the database, of a single `x`, and of the zeros below. -/
def sampleSha256 (content : Bytes) : Vector UInt8 32 :=
  if content = sampleDatabase then
    #v[0x3f, 0x84, 0x34, 0xaf, 0xf0, 0x12, 0xff, 0xcb, 0x59, 0x4a, 0xd7, 0x52, 0x7d, 0x60, 0x42, 0x84,
      0x1c, 0xe9, 0x4f, 0x49, 0x98, 0x87, 0xf8, 0x6a, 0xb8, 0x28, 0xf8, 0x4a, 0x9a, 0x27, 0x5f, 0x91]
  else if content = [120] then
    #v[0x2d, 0x71, 0x16, 0x42, 0xb7, 0x26, 0xb0, 0x44, 0x01, 0x62, 0x7c, 0xa9, 0xfb, 0xac, 0x32, 0xf5,
      0xc8, 0x53, 0x0f, 0xb1, 0x90, 0x3c, 0xc4, 0xdb, 0x02, 0x25, 0x87, 0x17, 0x92, 0x1a, 0x48, 0x81]
  else
    #v[0xb9, 0x0e, 0x35, 0xdc, 0x42, 0xf4, 0x25, 0x86, 0x64, 0xe3, 0x60, 0x54, 0xdc, 0xa1, 0x13, 0x7f,
      0x2f, 0xe0, 0x54, 0x35, 0x2b, 0xe5, 0xe3, 0xe3, 0xc9, 0x29, 0x29, 0x9f, 0x55, 0x39, 0x02, 0x21]

def sampleHash (content : Bytes) : String := contentHash sampleSha256 content

def sampleManifest (content : Bytes) : Manifest where
  createdAt := "2026-01-01T00:00:00.000+00:00"
  schemaVersion := 2
  counts := ⟨0, 1, 1, 0, 0⟩
  files := [⟨databaseName, sampleDatabase.length, sampleHash sampleDatabase⟩,
    ⟨objectPath (sampleHash content), content.length, sampleHash content⟩]

def sampleOutside (content : Bytes) : Outside where
  sha256 := sampleSha256
  schemaVersion _ _ := .ok 2
  sidecars _ _ := []
  sidecars_named _ _ _ h := absurd h List.not_mem_nil
  elsewhere _ tree :=
    ⟨.error (Failure.validation "State archive contains an invalid database"), tree, []⟩
  versions _ := [(sampleHash content, content.length)]
  counts _ := ⟨0, 1, 1, 0, 0⟩
  now := "2026-01-01T00:00:00.000+00:00"
  packed _ := 17000000
  loads bytes := if bytes = canonicalJson (sampleManifest content).toJson then
      .ok (sampleManifest content).loaded
    else .error (Failure.other "JSONDecodeError")
  strOf
    | .str s => s
    | _ => ""
  strOf_str _ := rfl
  write _ := .ok ()
  replace := .ok ()
  digestFile := .ok (sampleHash [])

/-- `/srv/.luma-restore-x`. -/
def sampleDirectory : Bytes := "/srv/.luma-restore-x".toUTF8.data.toList

def zeros (size : Nat) : Bytes := List.replicate size 0

end LumaOS.StateTransfer
