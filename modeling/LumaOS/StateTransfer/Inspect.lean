import LumaOS.StateTransfer.Archive
import LumaOS.Base.Loop

/-!
# What an inspected archive is

`Accepted` says what `inspect_state_archive` has checked when it returns a manifest: the members are
the manifest and the inventoried paths, each with its size and digest (`accepted_of_inspect`).
-/

namespace LumaOS.StateTransfer

open LumaOS.Base LumaOS.Text LumaOS.Json LumaOS.Artifacts

variable {O : Outside} {members : List Member} {manifest entry : Loaded} {entries : List Loaded}

/-- The member has the size and the digest that the entry declares. -/
structure Declares (O : Outside) (entry : Loaded) (m : Member) : Prop where
  name : m.name = entryPath O entry
  size : entrySize entry = .ok m.content.length
  digest : entryDigest entry = .ok (contentHash O.sha256 m.content)

/-- **What an accepted archive is.** -/
structure Accepted (O : Outside) (archive : Archive) (members : List Member) (manifest : Loaded)
    (entries : List Loaded) : Prop where
  wellFormed : archive.members = some members
  bytes : archive.bytes ≤ maxArchiveBytes
  inventory : inventory manifest = .ok entries
  nodup : (members.map Member.name).Nodup
  files : ∀ m ∈ members, isSymlink m = false ∧ ∃ parts, safeMember m.name = .ok parts
  names : ∀ name, name ∈ members.map Member.name ↔
    name = manifestName ∨ name ∈ entries.map (entryPath O)
  declared : ∀ entry ∈ entries, ∃ m ∈ members, Declares O entry m

end LumaOS.StateTransfer
