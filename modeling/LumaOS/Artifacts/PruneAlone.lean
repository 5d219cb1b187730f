import LumaOS.Artifacts.Prune

/-!
# A prune that has the disk for itself

Where every file has the name of a digest, the scan finds the objects that are not referenced, each
once, and the prune removes them (`alone_prune`). A file with another name stops it (`prune_refused`).
-/

namespace LumaOS.Artifacts

open LumaOS.Base LumaOS.Text

open Prog

variable {d : Disk} {referenced : List String} {directory name : String} {α β : Type}

theorem alone_inspect (label : Touch) (f : Disk → Except Failure α) (d : Disk) :
    (inspect label f).alone d = (f d, d) := alone_reads rfl

theorem alone_bind_inspect (label : Touch) (f : Disk → Except Failure α) (g : α → DiskCall β)
    (d : Disk) : (inspect label f >>= g).alone d =
      match f d with
      | .ok a => (g a).alone d
      | .error e => (.error e, d) := by
  have hinspect := alone_inspect label f d
  cases hf : f d with
  | ok a => exact alone_bind_of_ok (hf ▸ hinspect)
  | error e => exact alone_bind_of_error (hf ▸ hinspect)

/-! ## The scan -/

/-- What the scan adds for a file of a disk that stays as it is. -/
def scanned (d : Disk) (referenced : List String) (directory : String) (found : List Candidate)
    (name : String) : Except Failure (List Candidate) :=
  if !d.isFile directory name then .ok found
  else if !isHash name then
    .error (Failure.validation "Object store contains a non-canonical file")
  else if referenced.contains name then .ok found
  else (fetch d.db.objects[name]? (Failure.other "FileNotFoundError")).map fun content =>
    found ++ [⟨name, content.length⟩]

theorem alone_scanFile (found : List Candidate) :
    (scanFile referenced directory found name).alone d =
      (scanned d referenced directory found name, d) := by
  unfold scanFile scanned
  rw [alone_bind_inspect]
  cases hfile : d.isFile directory name with
  | false => rfl
  | true =>
    cases hhash : isHash name with
    | false => rfl
    | true =>
      cases hreferenced : referenced.contains name with
      | true => rfl
      | false =>
        have hrest := alone_bind_inspect .scan (fun d => fetch d.db.objects[name]?
          (Failure.other "FileNotFoundError")) (fun content => pure (found ++
            [⟨name, content.length⟩])) d
        refine Eq.trans hrest ?_
        cases d.db.objects[name]? <;> rfl

theorem alone_scanDirectory (found : List Candidate) :
    (scanDirectory referenced found directory).alone d =
      ((d.names directory).foldlM (scanned d referenced directory) found, d) := by
  unfold scanDirectory
  rw [alone_bind_inspect]
  exact alone_foldlM fun _ _ _ => alone_scanFile _

/-- The file is removed by a prune that read these references. -/
def candidate (d : Disk) (referenced : List String) (name : String) : Option Candidate :=
  if referenced.contains name then none
  else some ⟨name, (d.db.objects[name]?.getD []).length⟩

/-- What a loop of turns that all succeed adds. -/
theorem foldlM_append {ε : Type} {f : List β → α → Except ε (List β)} {g : α → List β} :
    ∀ {xs : List α} {found : List β}, (∀ x ∈ xs, ∀ found, f found x = .ok (found ++ g x)) →
      xs.foldlM f found = .ok (found ++ xs.flatMap g)
  | [], found, _ => by simp [pure, Except.pure]
  | x :: xs, found, h => by
    rw [List.forall_mem_cons] at h
    rw [List.foldlM_cons, h.1]
    refine (foldlM_append h.2).trans ?_
    rw [List.flatMap_cons, List.append_assoc]

/-- One turn that fails makes the loop fail. -/
theorem foldlM_error {ε : Type} {f : β → α → Except ε β} {x : α} :
    ∀ {xs : List α} {b : β}, x ∈ xs → (∀ b, ∃ e, f b x = .error e) → ∃ e, xs.foldlM f b = .error e
  | y :: ys, b, hx, h => by
    rw [List.foldlM_cons]
    cases hy : f b y with
    | error e => exact ⟨e, rfl⟩
    | ok b' =>
      rcases List.mem_cons.mp hx with rfl | hx
      · obtain ⟨e, he⟩ := h b
        rw [hy] at he
        cases he
      · exact foldlM_error hx h

/-- The objects that a prune of this disk removes. -/
def Disk.garbage (d : Disk) : List Candidate :=
  (d.directories.flatMap d.names).filterMap (candidate d d.db.hashes)

/-- A disk without staged files, whose objects are named by digests. -/
structure Clean (d : Disk) : Prop where
  staged : d.staged = []
  named : ∀ name ∈ d.db.objects, isHash name = true

theorem Clean.names_eq (h : Clean d) (directory : String) :
    d.names directory = d.db.objects.keys.filter fun hash => directoryOf hash == directory := by
  rw [Disk.names, h.staged]
  simp

theorem Clean.scanned_eq (h : Clean d) (hname : name ∈ d.names directory)
    (found : List Candidate) :
    scanned d referenced directory found name =
      .ok (found ++ (candidate d referenced name).toList) := by
  have hfile : d.isFile directory name = true := List.contains_iff_mem.mpr hname
  rw [h.names_eq] at hname
  have hmem := Std.ExtTreeMap.mem_keys.mp (List.mem_filter.mp hname).1
  obtain ⟨content, hcontent⟩ := Table.mem_iff_get.mp hmem
  rw [scanned, candidate, hfile, h.named name hmem, hcontent]
  cases referenced.contains name with
  | true => simp
  | false => rfl

theorem Clean.scan_eq (h : Clean d) : d.directories.foldlM (fun found directory =>
    (d.names directory).foldlM (scanned d d.db.hashes directory) found) [] = .ok d.garbage := by
  have hdirectory : ∀ directory ∈ d.directories, ∀ found,
      (d.names directory).foldlM (scanned d d.db.hashes directory) found = .ok (found ++
        (d.names directory).flatMap fun name => (candidate d d.db.hashes name).toList) :=
    fun directory _ found => foldlM_append fun name hname found => h.scanned_eq hname found
  rw [foldlM_append hdirectory, List.nil_append, Disk.garbage, List.filterMap_eq_flatMap_toList,
    List.flatMap_assoc]

theorem Clean.mem_names (h : Clean d) {key : String} :
    key ∈ d.directories.flatMap d.names ↔ key ∈ d.db.objects := by
  rw [List.mem_flatMap]
  constructor
  · rintro ⟨directory, -, hkey⟩
    rw [h.names_eq] at hkey
    exact Std.ExtTreeMap.mem_keys.mp (List.mem_filter.mp hkey).1
  · intro hkey
    have hkeys := Std.ExtTreeMap.mem_keys.mpr hkey
    refine ⟨directoryOf key, ?_, ?_⟩
    · exact List.mem_dedup.mpr (List.mem_append_left _ (List.mem_map_of_mem hkeys))
    · rw [h.names_eq]
      exact List.mem_filter.mpr ⟨hkeys, beq_self_eq_true _⟩

theorem Clean.nodup_names (h : Clean d) : (d.directories.flatMap d.names).Nodup := by
  rw [List.nodup_flatMap]
  refine ⟨fun directory _ => ?_, ?_⟩
  · rw [h.names_eq]
    exact Std.ExtTreeMap.nodup_keys.filter _
  · refine (List.nodup_dedup _).imp fun {a b} hab name ha hb => hab ?_
    rw [h.names_eq] at ha hb
    rw [← eq_of_beq (List.mem_filter.mp ha).2, ← eq_of_beq (List.mem_filter.mp hb).2]

theorem names_garbage (d : Disk) : d.garbage.map Candidate.name =
    (d.directories.flatMap d.names).filter fun name => !d.db.hashes.contains name := by
  unfold Disk.garbage
  induction d.directories.flatMap d.names with
  | nil => rfl
  | cons name names ih =>
    rw [List.filter_cons]
    cases hreferenced : d.db.hashes.contains name with
    | true =>
      have hnone : candidate d d.db.hashes name = none := if_pos hreferenced
      rw [List.filterMap_cons_none hnone]
      exact ih
    | false =>
      have hsome : candidate d d.db.hashes name =
          some ⟨name, (d.db.objects[name]?.getD []).length⟩ :=
        if_neg (ne_true_of_eq_false hreferenced)
      rw [List.filterMap_cons_some hsome, List.map_cons, ih]
      rfl

theorem mem_garbage (h : Clean d) {key : String} :
    key ∈ d.garbage.map Candidate.name ↔ key ∈ d.db.objects ∧ key ∉ d.db.hashes := by
  rw [names_garbage, List.mem_filter, h.mem_names]
  simp

theorem nodup_garbage (h : Clean d) : (d.garbage.map Candidate.name).Nodup := by
  rw [names_garbage]
  exact h.nodup_names.filter _

/-! ## The removals -/

/-- The disk without some objects. -/
def Disk.without (d : Disk) (names : List String) : Disk :=
  { d with db := { d.db with objects := names.foldl (fun t name => t.erase name) d.db.objects } }

/-- Distinct objects that are there are removed. -/
theorem alone_unlinks : ∀ {cs : List Candidate} {d : Disk}, (cs.map Candidate.name).Nodup →
    (∀ c ∈ cs, c.name ∈ d.db.objects) →
    (cs.foldlM (fun _ c => transaction (Touch.unlink c.name) (unlink c.name)) ()).alone d =
      (.ok (), d.without (cs.map Candidate.name))
  | [], _, _, _ => rfl
  | c :: cs, d, hnodup, hmem => by
    rw [List.map_cons, List.nodup_cons] at hnodup
    rw [List.forall_mem_cons] at hmem
    have hexec : Proc.exec (unlink c.name) d = (.ok (), d.without [c.name]) := by
      have hcontains := Std.ExtTreeMap.contains_iff_mem.mpr hmem.1
      unfold unlink
      rw [Proc.exec_bind_get, hcontains]
      rfl
    rw [List.foldlM_cons, alone_bind_of_ok (alone_transaction hexec)]
    refine (alone_unlinks hnodup.2 fun c' hc' => ?_).trans rfl
    obtain ⟨content, hcontent⟩ := Table.mem_iff_get.mp (hmem.2 c' hc')
    have hne : c.name ≠ c'.name := fun heq => hnodup.1 (heq ▸ List.mem_map_of_mem hc')
    exact Table.mem_iff_get.mpr ⟨content, (Table.get_erase.trans (if_neg hne)).trans hcontent⟩

/-! ## The prune -/

theorem alone_scan (d : Disk) : (d.directories.foldlM (scanDirectory d.db.hashes) []).alone d =
    (d.directories.foldlM (fun found directory =>
      (d.names directory).foldlM (scanned d d.db.hashes directory) found) [], d) :=
  alone_foldlM fun _ _ _ => alone_scanDirectory _

/-- **A prune of a clean disk removes its garbage.** -/
theorem alone_prune (h : Clean d) : ∃ report, (prune true).alone d =
    (.ok report, d.without (d.garbage.map Candidate.name)) := by
  have hscan := alone_scan d
  rw [h.scan_eq] at hscan
  have hmem : ∀ c ∈ d.garbage, c.name ∈ d.db.objects := fun c hc =>
    ((mem_garbage h).mp (List.mem_map_of_mem hc)).1
  unfold prune
  rw [alone_bind_inspect]
  dsimp only [pure, Except.pure]
  rw [alone_bind_inspect]
  dsimp only [pure, Except.pure]
  rw [alone_bind_of_ok hscan, if_pos rfl, alone_bind_of_ok (alone_unlinks (nodup_garbage h) hmem)]
  exact ⟨_, rfl⟩

/-- **A file with another name stops every prune.** -/
theorem prune_refused {entry : String × String} (h : entry ∈ d.staged)
    (hname : isHash entry.2 = false) (apply : Bool) : ∃ e, (prune apply).alone d = (.error e, d) := by
  have hdirectory : entry.1 ∈ d.directories :=
    List.mem_dedup.mpr (List.mem_append_right _ (List.mem_map_of_mem h))
  have hnames : entry.2 ∈ d.names entry.1 := List.mem_append_right _ (List.mem_map_of_mem
    (List.mem_filter.mpr ⟨h, beq_self_eq_true _⟩))
  have hscanned : ∀ found, ∃ e, scanned d d.db.hashes entry.1 found entry.2 = .error e := by
    intro found
    have hfile : d.isFile entry.1 entry.2 = true := List.contains_iff_mem.mpr hnames
    rw [scanned, hfile, hname]
    exact ⟨_, rfl⟩
  obtain ⟨e, he⟩ := foldlM_error (f := fun found directory =>
    (d.names directory).foldlM (scanned d d.db.hashes directory) found) (b := []) hdirectory
    fun found => foldlM_error hnames hscanned
  have hscan := alone_scan d
  rw [he] at hscan
  refine ⟨e, ?_⟩
  unfold prune
  rw [alone_bind_inspect]
  dsimp only [pure, Except.pure]
  rw [alone_bind_inspect]
  dsimp only [pure, Except.pure]
  exact alone_bind_of_error hscan

end LumaOS.Artifacts
