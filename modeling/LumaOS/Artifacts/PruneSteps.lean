import LumaOS.Artifacts.Prune
import LumaOS.Artifacts.Calls

/-!
# What the calls do to the disk

A call on the disk has done nothing that lasts, holds an object it found or published, or prunes
with the digests it read. `Touches` lists its steps: an object it holds may be referenced by a
version from then on, and what a prune removes is none of the digests it read. The calls follow it
(`leads_request`), whatever the others do to the disk.
-/

namespace LumaOS.Artifacts

open LumaOS.Base LumaOS.Text

open Prog Proc

/-- What a call on the disk has done. -/
inductive DiskPhase where
  | idle
  | holding (hash : String)
  | pruning (referenced : List String)

/-- **The abstract call on the disk.** -/
inductive Touches (sha256 : Bytes → Vector UInt8 32) :
    DiskPhase → Touch → Disk → Disk → DiskPhase → Prop where
  | read {phase : DiskPhase} {label : Touch} {d : Disk} (hlabel : ∀ hash, label ≠ .unlink hash) :
      Touches sha256 phase label d d phase
  | found {phase : DiskPhase} {d : Disk} {hash : String} (h : hash ∈ d.db.objects) :
      Touches sha256 phase (.find hash) d d (.holding hash)
  | staged {phase : DiskPhase} {label : Touch} {d : Disk} (staged : List (String × String))
      (hlabel : label = .stage ∨ label = .unstage)
      (hnames : ∀ e ∈ staged, e ∈ d.staged ∨ isHash e.2 = false) :
      Touches sha256 phase label d { d with staged } phase
  | link {phase : DiskPhase} {d : Disk} (content : Bytes) :
      Touches sha256 phase (.link (contentHash sha256 content)) d
        { d with db := d.db.linked (contentHash sha256 content) content }
        (.holding (contentHash sha256 content))
  | commit {d : Disk} {db : Database} {hash : String} (hobjects : db.objects = d.db.objects)
      (hhashes : db.hashes = d.db.hashes ++ [hash]) :
      Touches sha256 (.holding hash) .commit d { d with db } (.holding hash)
  | references {phase : DiskPhase} {d : Disk} :
      Touches sha256 phase .references d d (.pruning d.db.hashes)
  | unlink {referenced : List String} {d : Disk} {hash : String} (h : hash ∉ referenced) :
      Touches sha256 (.pruning referenced) (.unlink hash) d
        { d with db := { d.db with objects := d.db.objects.erase hash } } (.pruning referenced)
  | missing {referenced : List String} {d : Disk} {hash : String} (h : hash ∉ referenced) :
      Touches sha256 (.pruning referenced) (.unlink hash) d d (.pruning referenced)

/-- A call that follows `Touches`, with `Q` where it returns. -/
abbrev Touching (sha256 : Bytes → Vector UInt8 32) {α : Type} (p : DiskCall α) (phase : DiskPhase)
    (Q : DiskPhase → α → Prop) : Prop :=
  p.Leads (Touches sha256) (fun _ _ => True) phase Q

variable {sha256 : Bytes → Vector UInt8 32} {phase : DiskPhase} {db : Database} {hash : String}
  {α : Type}

/-! ## Calls on the tables -/

/-- What a call on the tables does: nothing, or a commit of a version with the digest it holds. -/
def OnTables (phase : DiskPhase) (label : Action) (db db' : Database) (phase' : DiskPhase) : Prop :=
  phase' = phase ∧ (db' = db ∨ label = .commit ∧ ∃ hash, phase = .holding hash ∧
    db'.objects = db.objects ∧ db'.hashes = db.hashes ++ [hash])

theorem touching_tables {p : Call α} {Q : DiskPhase → α → Prop}
    (h : p.Leads OnTables (fun _ _ => True) phase Q) : Touching sha256 (tables p) phase Q := by
  refine Follows.zoom h (fun _ _ _ => trivial) ?_
  rintro phase label d db phase' - ⟨rfl, rfl | ⟨rfl, hash, rfl, hobjects, hhashes⟩⟩
  · refine .read fun hash => ?_
    split <;> simp
  · exact .commit hobjects hhashes

/-- A query of the tables. -/
theorem leads_query {label : Action} {body : Body α}
    (h : ∀ db, Returns body db fun _ db' => db' = db) :
    Leads OnTables (fun _ _ => True) (transaction label body) phase fun phase' _ =>
      phase' = phase := by
  refine leads_transaction (fun db _ => (h db).mono ?_) fun _ _ => ⟨rfl, .inl rfl⟩
  rintro _ _ rfl
  exact ⟨phase, ⟨rfl, .inl rfl⟩, rfl⟩

theorem touching_getVersion (owner id : String) (version : Nat) :
    Touching sha256 (tables (getVersion owner id version)) phase fun phase' _ => phase' = phase :=
  touching_tables (leads_query fun _ => returns_bind_get (returns_lift fun _ _ => rfl))

theorem touching_findReceipt (owner : String) (key : Option String) :
    Touching sha256 (tables (findReceipt owner key)) phase fun phase' _ => phase' = phase := by
  refine touching_tables ?_
  unfold findReceipt
  split
  · exact leads_pure rfl
  · exact leads_query fun _ => returns_bind_get (returns_pure rfl)

theorem touching_checkWorkflow (owner : String) (workflowId : Option String) :
    Touching sha256 (tables (checkWorkflow owner workflowId)) phase
      fun phase' _ => phase' = phase := by
  refine touching_tables ?_
  unfold checkWorkflow
  split
  · exact leads_pure rfl
  · exact leads_query fun _ => returns_bind_get (returns_lift fun _ _ => rfl)

/-- What a write transaction leaves: the tables as they were, or one version with the digest. -/
def Appended (db : Database) (hash : String) (db' : Database) : Prop :=
  db' = db ∨ db'.objects = db.objects ∧ db'.hashes = db.hashes ++ [hash]

theorem touching_commit {body : Body α}
    (h : ∀ db, Returns body db fun _ db' => Appended db hash db') :
    Touching sha256 (tables (transaction .commit body)) (.holding hash)
      fun phase' _ => phase' = .holding hash := by
  refine touching_tables (leads_transaction (fun db _ => (h db).mono ?_)
    fun _ _ => ⟨rfl, .inl rfl⟩)
  rintro _ db' hdb'
  exact ⟨_, ⟨rfl, hdb'.imp_right fun h => ⟨rfl, hash, rfl, h⟩⟩, rfl⟩

theorem Create.returns_appended (c : Create) (db : Database) :
    Returns (c.commit hash) db fun _ db' => Appended db hash db' := by
  unfold Create.commit
  refine returns_bind_get (returns_bind_lift fun _ _ => ?_)
  split
  · exact returns_bind_raiseIf fun _ => returns_bind_lift fun _ _ => returns_pure (.inl rfl)
  · refine returns_bind ((returns_insertArtifact _).mono ?_)
    rintro _ db₁ ⟨-, rfl⟩
    refine returns_bind ((returns_insertVersion _).mono ?_)
    rintro _ db₂ rfl
    refine returns_bind ((returns_insertReceipt _).mono ?_)
    rintro _ db₃ ⟨-, rfl⟩
    refine returns_pure (.inr ⟨rfl, ?_⟩)
    simp [Database.hashes, Create.version]

theorem AddVersion.returns_appended (c : AddVersion) (db : Database) :
    Returns (c.commit hash) db fun _ db' => Appended db hash db' := by
  unfold AddVersion.commit
  refine returns_bind_get (returns_bind_lift fun _ _ => ?_)
  split
  · exact returns_bind_raiseIf fun _ => returns_bind_lift fun _ _ => returns_pure (.inl rfl)
  · refine returns_bind_lift fun a _ => returns_bind_raiseIf fun _ => ?_
    refine returns_bind ((returns_insertVersion _).mono ?_)
    rintro _ db₁ rfl
    refine returns_bind_modify (returns_bind ((returns_insertReceipt _).mono ?_))
    rintro _ db₂ ⟨-, rfl⟩
    refine returns_pure (.inr ⟨rfl, ?_⟩)
    simp [Database.hashes, AddVersion.row, Database.setCurrentVersion]

/-! ## Objects -/

theorem touching_inspect {label : Touch} {f : Disk → Except Failure α} {Q : DiskPhase → α → Prop}
    (hlabel : ∀ hash, label ≠ .unlink hash)
    (h : ∀ d a, f d = .ok a → ∃ phase', Touches sha256 phase label d d phase' ∧ Q phase' a) :
    Touching sha256 (inspect label f) phase Q :=
  leads_transaction (fun d _ => returns_bind_get (returns_lift fun a ha => h d a ha))
    fun _ _ => .read hlabel

/-- What is looked at does not matter. -/
theorem touching_glance {label : Touch} {f : Disk → Except Failure α}
    (hlabel : ∀ hash, label ≠ .unlink hash) :
    Touching sha256 (inspect label f) phase fun phase' _ => phase' = phase :=
  touching_inspect hlabel fun _ _ _ => ⟨phase, .read hlabel, rfl⟩

theorem touching_syncing : Touching sha256 syncing phase fun phase' _ => phase' = phase :=
  leads_transaction (fun _ _ => returns_pure ⟨phase, .read fun _ => by simp, rfl⟩)
    fun _ _ => .read fun _ => by simp

theorem isHash_stagedName (drawn : String) : isHash (stagedName drawn) = false := by
  have hdot : (stagedName drawn).toList.all lowerHex = false := by
    rw [stagedName, String.toList_append, List.all_append]
    rfl
  rw [isHash, hdot, Bool.and_false]

theorem touching_stage (directory drawn : String) :
    Touching sha256 (transaction .stage (stage (directory, stagedName drawn))) phase
      fun phase' _ => phase' = phase := by
  refine leads_transaction (fun d _ => returns_bind_get (returns_bind_raiseIf fun _ =>
    returns_modify ⟨phase, .staged _ (.inl rfl) fun e he => ?_, rfl⟩)) fun _ _ => .read fun _ => by simp
  rcases List.mem_cons.mp he with rfl | he
  · exact .inr (isHash_stagedName drawn)
  · exact .inl he

theorem touching_unstage (entry : String × String) :
    Touching sha256 (transaction .unstage (unstage entry)) phase fun phase' _ => phase' = phase :=
  leads_transaction (fun _ _ => returns_modify ⟨phase, .staged _ (.inr rfl) fun _ he =>
    .inl (List.mem_filter.mp he).1, rfl⟩) fun _ _ => .read fun _ => by simp

/-- `_store_blob` holds the object of the content. -/
theorem touching_storeStaged (drawn : String) (content : Bytes) :
    Touching sha256 (storeStaged sha256 drawn content) phase fun phase' hash =>
      phase' = .holding hash := by
  unfold storeStaged
  refine leads_bind touching_syncing ?_
  rintro _ - rfl
  refine leads_bind (Q := fun phase' present =>
    present = true → phase' = .holding (contentHash sha256 content)) ?_ ?_
  · refine touching_inspect (fun _ => by simp) fun d present hpresent => ?_
    obtain rfl := Except.ok.inj hpresent
    cases hmem : d.db.objects.contains (contentHash sha256 content) with
    | true => exact ⟨_, .found (Std.ExtTreeMap.contains_iff_mem.mp hmem), fun _ => rfl⟩
    | false => exact ⟨_, .read fun _ => by simp, fun h => by cases h⟩
  · intro phase' present hpresent
    cases present with
    | true =>
      obtain rfl := hpresent rfl
      refine leads_bind (touching_glance fun _ => by simp) ?_
      rintro _ observed rfl
      exact leads_bind_raiseIf fun _ => leads_pure rfl
    | false =>
      refine leads_bind (touching_stage _ _) ?_
      rintro _ - rfl
      refine leads_bind (Q := fun phase' _ => phase' = .holding (contentHash sha256 content)) ?_ ?_
      · refine leads_tryCatch ?_ fun _ _ => leads_bind (touching_unstage _) fun _ _ _ => leads_raise
        refine leads_bind touching_syncing ?_
        rintro _ - rfl
        refine leads_bind (Q := fun phase' _ => phase' = .holding (contentHash sha256 content))
          (leads_transaction (fun d _ => returns_modify ⟨_, .link content, rfl⟩)
            fun _ _ => .read fun _ => by simp) ?_
        rintro _ - rfl
        refine leads_bind (touching_unstage _) ?_
        rintro _ - rfl
        exact touching_syncing
      · rintro _ - rfl
        exact leads_pure rfl

/-! ## The calls -/

theorem touching_create (c : Create) (drawn : String) :
    Touching sha256 (c.stagedCall sha256 drawn) .idle fun _ _ => True := by
  unfold Create.stagedCall
  refine leads_bind_lift fun _ _ => leads_bind (touching_findReceipt _ _) ?_
  rintro _ found rfl
  cases found with
  | some r => exact leads_bind_raiseIf fun _ => (touching_getVersion _ _ _).mono fun _ _ _ => trivial
  | none =>
    refine leads_bind (touching_checkWorkflow _ _) ?_
    rintro _ - rfl
    refine leads_bind (touching_storeStaged drawn c.content) ?_
    rintro _ hash rfl
    refine leads_bind (touching_commit c.returns_appended) ?_
    rintro _ committed rfl
    cases committed with
    | some won => exact leads_pure trivial
    | none => exact (touching_getVersion _ _ _).mono fun _ _ _ => trivial

theorem touching_addVersion (c : AddVersion) (drawn : String) :
    Touching sha256 (c.stagedCall sha256 drawn) .idle fun _ _ => True := by
  unfold AddVersion.stagedCall
  refine leads_bind (touching_checkWorkflow _ _) ?_
  rintro _ - rfl
  refine leads_bind (touching_storeStaged drawn c.content) ?_
  rintro _ hash rfl
  refine leads_bind (touching_findReceipt _ _) ?_
  rintro _ found rfl
  cases found with
  | some r => exact leads_bind_raiseIf fun _ => (touching_getVersion _ _ _).mono fun _ _ _ => trivial
  | none =>
    refine leads_bind (touching_commit c.returns_appended) ?_
    rintro _ committed rfl
    cases committed with
    | inl won => exact leads_pure trivial
    | inr version => exact (touching_getVersion _ _ _).mono fun _ _ _ => trivial

/-- The files that a scan has found are none of the referenced ones. -/
def Unreferenced (referenced : List String) (found : List Candidate) : Prop :=
  ∀ c ∈ found, c.name ∉ referenced

theorem touching_scanFile {referenced : List String} {found : List Candidate}
    (hfound : Unreferenced referenced found) (directory name : String) :
    Touching sha256 (scanFile referenced directory found name) phase fun phase' found' =>
      phase' = phase ∧ Unreferenced referenced found' := by
  unfold scanFile
  refine leads_bind (touching_glance fun _ => by simp) ?_
  rintro _ present rfl
  split
  · exact leads_pure ⟨rfl, hfound⟩
  refine leads_bind_raiseIf fun _ => ?_
  split
  · exact leads_pure ⟨rfl, hfound⟩
  · rename_i hreferenced
    refine leads_bind (touching_glance fun _ => by simp) ?_
    rintro _ content rfl
    refine leads_pure ⟨rfl, fun c hc => ?_⟩
    rcases List.mem_append.mp hc with hc | hc
    · exact hfound c hc
    · rw [List.mem_singleton.mp hc]
      rwa [List.contains_iff_mem] at hreferenced

theorem touching_prune (apply : Bool) :
    Touching sha256 (prune apply) .idle fun _ _ => True := by
  unfold prune
  refine leads_bind (Q := fun phase' referenced => phase' = .pruning referenced)
    (touching_inspect (fun _ => by simp) fun d referenced h => ?_) ?_
  · obtain rfl := Except.ok.inj h
    exact ⟨_, .references, rfl⟩
  rintro _ referenced rfl
  refine leads_bind (touching_glance fun _ => by simp) ?_
  rintro _ directories rfl
  refine leads_bind (leads_foldlM (I := Unreferenced referenced) (fun directory _ found hfound => ?_)
    fun c hc => absurd hc List.not_mem_nil) ?_
  · refine leads_bind (touching_glance fun _ => by simp) ?_
    rintro _ names rfl
    exact leads_foldlM (fun name _ found hfound => touching_scanFile hfound directory name) hfound
  rintro _ candidates ⟨rfl, hcandidates⟩
  refine leads_bind (leads_foldlM (I := fun _ => True) (fun c hc _ _ => ?_) trivial) ?_
  · have hnot : c.name ∉ referenced := by
      split at hc
      · exact hcandidates c hc
      · exact absurd hc List.not_mem_nil
    exact leads_transaction (fun d _ => returns_bind_get (returns_bind_raiseIf fun _ =>
      returns_modify ⟨_, .unlink hnot, rfl, trivial⟩)) fun _ _ => .missing hnot
  rintro _ - ⟨rfl, -⟩
  refine leads_bind (Q := fun _ _ => True) (leads_transaction (fun _ _ => returns_pure
    ⟨_, .read fun _ => by simp, trivial⟩) fun _ _ => .read fun _ => by simp) ?_
  exact fun _ _ _ => leads_pure trivial

/-- **Every call on the disk follows the abstract one.** -/
theorem touching_request (request : DiskRequest) :
    Touching sha256 (request.call sha256) .idle fun _ _ => True := by
  cases request with
  | create c drawn =>
    exact leads_bind (touching_create c drawn) fun _ _ _ => leads_pure trivial
  | addVersion c drawn =>
    exact leads_bind (touching_addVersion c drawn) fun _ _ _ => leads_pure trivial
  | prune apply => exact leads_bind (touching_prune apply) fun _ _ _ => leads_pure trivial

end LumaOS.Artifacts
