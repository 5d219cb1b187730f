import LumaOS.Artifacts.Commit

/-!
# What the calls do to the store

A call goes through three phases: it knows nothing, it knows that its object is stored, it knows the
receipt that answers it. `Allowed` is the abstract call: it reads, publishes the object of its own
content, or commits a version whose object is stored, and learns what it then knows. `create_bytes`
and `add_version` follow it (`follows_call`), from the first test of the receipts through the second
one in the write transaction to the last `get`.
-/

namespace LumaOS.Artifacts

open LumaOS.Base LumaOS.Text

open Prog Proc

/-- One of the two calls. -/
inductive Request where
  | create (c : Create)
  | addVersion (c : AddVersion)

namespace Request

def owner : Request → String
  | create c => c.owner
  | addVersion c => c.owner

def content : Request → Bytes
  | create c => c.content
  | addVersion c => c.content

/-- The key a request gives, if it gives one. -/
def key : Request → Option String
  | create c => truthy c.idempotencyKey
  | addVersion c => truthy c.idempotencyKey

def call (sha256 : Bytes → Vector UInt8 32) : Request → Call Metadata
  | create c => c.call sha256
  | addVersion c => c.call sha256

/-- The version that the request commits, if it does. -/
def Commits : Request → Version → Prop
  | create _, v => v.version = 1
  | addVersion c, v => v.artifactId = c.artifactId ∧ v.version = c.expectedCurrentVersion + 1

end Request

/-- What a call knows. -/
inductive Phase where
  | idle
  | stored (hash : String)
  | settled (r : EffectReceipt)

/-- What is true of the store in a phase. -/
def Phase.Knows (db : Database) : Phase → Prop
  | idle => True
  | stored hash => hash ∈ db.objects
  | settled r => r ∈ db.receipts

/-- **The abstract call.** -/
inductive Allowed (sha256 : Bytes → Vector UInt8 32) (request : Request) :
    Phase → Action → Database → Database → Phase → Prop where
  | read {phase phase' : Phase} {label : Action} {db : Database} (hknows : phase'.Knows db) :
      Allowed sha256 request phase label db db phase'
  | publish {phase : Phase} {db : Database} (content : Bytes) :
      Allowed sha256 request phase .publish db (db.linked (contentHash sha256 content) content)
        (.stored (contentHash sha256 content))
  | commit {phase : Phase} {db db' : Database} {v : Version} {r : EffectReceipt}
      (h : Commit db v r db') (hobject : ∃ content, db.objects[v.contentHash]? = some content)
      (hrequest : request.Commits v) : Allowed sha256 request phase .commit db db' (.settled r)

/-- What a call relies on when it acts. -/
structure Known (sha256 : Bytes → Vector UInt8 32) (phase : Phase) (db : Database) : Prop where
  sound : Sound sha256 db
  knows : phase.Knows db

/-- The receipt answers the request: its owner, its key and its content. -/
structure Answers (sha256 : Bytes → Vector UInt8 32) (request : Request) (r : EffectReceipt) :
    Prop where
  owner : r.owner = request.owner
  key : ∀ key, request.key = some key → r.idempotencyKey = key
  contentHash : r.result.contentHash = contentHash sha256 request.content

/-- The metadata are those of the version that the receipt names. -/
structure Describes (m : Metadata) (r : EffectReceipt) : Prop where
  artifactId : m.artifactId = r.result.artifactId
  version : m.version = r.result.version
  contentHash : m.contentHash = r.result.contentHash
  sizeBytes : m.sizeBytes = r.result.sizeBytes

/-- Where a call may end: any exception, or the version of a receipt that answers it. -/
def Settled (sha256 : Bytes → Vector UInt8 32) (request : Request) (phase : Phase) :
    Except Failure Metadata → Prop
  | .ok m => ∃ r, phase = .settled r ∧ Answers sha256 request r ∧ Describes m r
  | .error _ => True

/-! ## Queries -/

variable {sha256 : Bytes → Vector UInt8 32} {db : Database} {r : EffectReceipt}

theorem receipt_eq_some {owner key : String} (h : db.receipt owner key = some r) :
    r ∈ db.receipts ∧ r.owner = owner ∧ r.idempotencyKey = key := by
  have hp := List.find?_some h
  rw [Bool.and_eq_true, beq_iff_eq, beq_iff_eq] at hp
  exact ⟨List.mem_of_find?_eq_some h, hp.1, hp.2⟩

theorem artifact_eq_some {id owner : String} {a : Artifact} (h : db.artifact id owner = some a) :
    a ∈ db.artifacts ∧ a.artifactId = id ∧ a.owner = owner := by
  have hp := List.find?_some h
  rw [Bool.and_eq_true, beq_iff_eq, beq_iff_eq] at hp
  exact ⟨List.mem_of_find?_eq_some h, hp.1, hp.2⟩

/-- What `get` returns for a version that a receipt names is that version. -/
theorem describes_of_get (hs : Sound sha256 db) (hr : r ∈ db.receipts) {owner : String}
    {m : Metadata}
    (h : db.getWithConnection owner r.result.artifactId (some r.result.version) = .ok m) :
    Describes m r := by
  unfold Database.getWithConnection at h
  cases ha : db.artifact r.result.artifactId owner with
  | none =>
    rw [ha] at h
    cases h
  | some a =>
    cases hv : db.version r.result.artifactId r.result.version with
    | none =>
      rw [ha] at h
      simp only [fetch, bind, Except.bind, Option.getD_some, hv] at h
      cases h
    | some v =>
      rw [ha] at h
      simp only [fetch, bind, Except.bind, Option.getD_some, hv, pure, Except.pure,
        Except.ok.injEq] at h
      have hp := List.find?_some hv
      rw [Bool.and_eq_true, beq_iff_eq, beq_iff_eq] at hp
      obtain ⟨w, hw, hnames⟩ := hs.version_of_receipt hr
      obtain rfl := hs.eq_of_version hw (List.mem_of_find?_eq_some hv)
        (hnames.artifactId.symm.trans hp.1.symm) (hnames.version.symm.trans hp.2.symm)
      subst h
      exact ⟨(artifact_eq_some ha).2.1, hp.2, hnames.contentHash.symm, hnames.sizeBytes.symm⟩

/-! ## Parts of a call -/

variable {request : Request} {phase : Phase}

abbrev FollowsFor (sha256 : Bytes → Vector UInt8 32) (request : Request) {α : Type} (p : Call α)
    (phase : Phase) (Q : Phase → Except Failure α → Prop) : Prop :=
  p.Follows (Allowed sha256 request) (Known sha256) phase Q

/-- What returns in the phase it began in, or raises in it. -/
def Within {α : Type} (phase : Phase) (Q : α → Prop) (phase' : Phase) : Except Failure α → Prop
  | .ok a => phase' = phase ∧ Q a
  | .error _ => True

/-- A transaction that only reads, and may learn something. -/
theorem follows_reads {α : Type} {label : Action} {body : Body α}
    {Q : Phase → Except Failure α → Prop}
    (h : ∀ db, Known sha256 phase db → Returns body db fun a db' =>
      db' = db ∧ ∃ phase', phase'.Knows db ∧ Q phase' (.ok a))
    (hfault : ∀ e, Q phase (.error e)) :
    FollowsFor sha256 request (transaction label body) phase Q := by
  refine follows_transaction (fun db hdb => (h db hdb).mono ?_) (fun db hdb => .read hdb.knows)
    hfault
  rintro a db' ⟨rfl, phase', hknows, hq⟩
  exact ⟨phase', .read hknows, hq⟩

theorem follows_getVersion {owner id : String} {version : Nat} (hid : id = r.result.artifactId)
    (hversion : version = r.result.version) (hanswers : Answers sha256 request r) :
    FollowsFor sha256 request (getVersion owner id version) (.settled r)
      (Settled sha256 request) := by
  subst hid hversion
  refine follows_reads (fun db hdb => returns_bind_get (returns_lift fun m hm => ?_))
    fun _ => trivial
  exact ⟨rfl, .settled r, hdb.knows, r, rfl, hanswers, describes_of_get hdb.sound hdb.knows hm⟩

theorem follows_checkWorkflow (owner : String) (workflowId : Option String) :
    FollowsFor sha256 request (checkWorkflow owner workflowId) phase
      (Within phase fun _ => True) := by
  unfold checkWorkflow
  split
  · exact follows_pure ⟨rfl, trivial⟩
  · exact follows_reads (fun db hdb => returns_bind_get (returns_lift fun _ _ =>
      ⟨rfl, phase, hdb.knows, rfl, trivial⟩)) fun _ => trivial

/-- The first test of the receipts: a receipt that is found is known from then on. -/
theorem follows_findReceipt (owner : String) (key : Option String) :
    FollowsFor sha256 request (findReceipt owner key) phase fun phase' result =>
      match result with
      | .ok none => phase' = phase
      | .ok (some r) => phase' = .settled r ∧ r.owner = owner ∧ truthy key = some r.idempotencyKey
      | .error _ => True := by
  unfold findReceipt
  split
  · exact follows_pure rfl
  · rename_i text htext
    refine follows_reads (fun db hdb => returns_bind_get (returns_pure ?_)) fun _ => trivial
    cases hfound : db.receipt owner text with
    | none => exact ⟨rfl, phase, hdb.knows, rfl⟩
    | some r =>
      obtain ⟨hmem, howner, hkey⟩ := receipt_eq_some hfound
      exact ⟨rfl, .settled r, hmem, rfl, howner, hkey ▸ htext⟩

theorem follows_privately :
    FollowsFor sha256 request privately phase (Within phase fun _ => True) :=
  follows_reads (fun _ hdb => returns_pure ⟨rfl, phase, hdb.knows, rfl, trivial⟩) fun _ => trivial

/-- `_store_blob` leaves the object of the content stored, whoever published it. -/
theorem follows_storeBlob (content : Bytes) :
    FollowsFor sha256 request (storeBlob sha256 content) phase fun phase' result =>
      match result with
      | .ok hash => hash = contentHash sha256 content ∧ phase' = .stored hash
      | .error _ => True := by
  unfold storeBlob
  refine follows_bind follows_privately (fun phase _ hphase => ?_) fun _ _ _ => trivial
  obtain ⟨rfl, -⟩ := hphase
  refine follows_bind (Q := fun phase' result => ∀ present, result = .ok present →
      if present then phase' = .stored (contentHash sha256 content) else phase' = phase) ?_ ?_
    fun _ _ _ => trivial
  · refine follows_reads (fun db hdb => returns_bind_get (returns_pure ?_))
      fun _ _ he => by cases he
    cases hpresent : db.objects.contains (contentHash sha256 content) with
    | true =>
      refine ⟨rfl, .stored _, Std.ExtTreeMap.contains_iff_mem.mp hpresent, fun present he => ?_⟩
      cases he
      rfl
    | false =>
      refine ⟨rfl, phase, hdb.knows, fun present he => ?_⟩
      cases he
      rfl
  · intro phase' present hpresent
    have hpresent := hpresent present rfl
    cases present with
    | true =>
      obtain rfl := hpresent
      refine follows_bind (Q := Within (.stored (contentHash sha256 content)) fun _ => True) ?_ ?_
        fun _ _ _ => trivial
      · exact follows_reads (fun db hdb => returns_bind_get (returns_lift fun _ _ =>
          ⟨rfl, _, hdb.knows, rfl, trivial⟩)) fun _ => trivial
      · rintro _ observed ⟨rfl, -⟩
        exact follows_bind_lift (fun _ _ => follows_pure ⟨rfl, rfl⟩) fun _ => trivial
    | false =>
      refine follows_bind follows_privately (fun _ _ _ => ?_) fun _ _ _ => trivial
      refine follows_bind (Q := Within (.stored (contentHash sha256 content)) fun _ => True) ?_ ?_
        fun _ _ _ => trivial
      · refine follows_transaction (fun db _ => ?_) (fun _ hdb => .read hdb.knows) fun _ => trivial
        exact returns_modify ⟨_, .publish content, rfl, trivial⟩
      · rintro _ _ ⟨rfl, -⟩
        refine follows_bind follows_privately (fun _ _ hphase => ?_) fun _ _ _ => trivial
        obtain ⟨rfl, -⟩ := hphase
        exact follows_pure ⟨rfl, rfl⟩

/-! ## The write transactions -/

theorem returns_insertArtifact (a : Artifact) :
    Returns (Database.insertArtifact a) db fun _ db' =>
      (∀ b ∈ db.artifacts, b.artifactId ≠ a.artifactId) ∧
        db' = { db with artifacts := db.artifacts ++ [a] } := by
  refine returns_bind_get (returns_bind_raiseIf fun hnew => returns_modify ⟨fun b hb => ?_, rfl⟩)
  simpa using List.any_eq_false.mp hnew b hb

theorem returns_insertVersion (v : Version) :
    Returns (Database.insertVersion v) db fun _ db' =>
      db' = { db with versions := db.versions ++ [v] } :=
  returns_bind_get (returns_bind_raiseIf fun _ => returns_bind_raiseIf fun _ => returns_modify rfl)

theorem returns_insertReceipt (r : EffectReceipt) :
    Returns (Database.insertReceipt r) db fun _ db' =>
      FreshKey db r ∧ db' = { db with receipts := db.receipts ++ [r] } := by
  refine returns_bind_get (returns_bind_raiseIf fun _ => returns_bind_raiseIf fun hnew =>
    returns_modify ⟨fun q hq heq => ?_, rfl⟩)
  obtain ⟨howner, hkey⟩ := Prod.mk.inj heq
  exact absurd (List.any_eq_false.mp hnew q hq) (by simp [howner, hkey])

/-- The second test of the receipts, in the write transaction. -/
theorem receipt_of_bind {owner : String} {key : Option String}
    (h : (truthy key).bind (db.receipt owner) = some r) :
    r ∈ db.receipts ∧ r.owner = owner ∧ truthy key = some r.idempotencyKey := by
  cases hkey : truthy key with
  | none =>
    rw [hkey] at h
    cases h
  | some text =>
    rw [hkey] at h
    obtain ⟨hmem, howner, heq⟩ := receipt_eq_some h
    exact ⟨hmem, howner, by rw [heq]⟩

variable {hash : String}

namespace Create

variable {c : Create}

theorem answers_of_replay (howner : r.owner = c.owner)
    (hkey : truthy c.idempotencyKey = some r.idempotencyKey)
    (hsame : c.differs (contentHash sha256 c.content) r.result = false) :
    Answers sha256 (.create c) r where
  owner := howner
  key key h := Option.some.inj (hkey.symm.trans h)
  contentHash := by
    simp only [differs, Bool.or_eq_false_iff, bne_eq_false_iff_eq] at hsame
    exact hsame.1

theorem answers_receipt :
    Answers sha256 (.create c) (c.receipt (contentHash sha256 c.content)) where
  owner := rfl
  key key h := by
    have h : truthy c.idempotencyKey = some key := h
    simp [receipt, commitReceipt, effectKey, h]
  contentHash := rfl

theorem returns_commit (hs : Sound sha256 db) (hhash : hash = contentHash sha256 c.content) :
    Returns (c.commit hash) db fun won db' =>
      match won with
      | some m => db' = db ∧ ∃ r ∈ db.receipts, Answers sha256 (.create c) r ∧ Describes m r
      | none => Commit db (c.version hash) (c.receipt hash) db' := by
  subst hhash
  unfold commit
  refine returns_bind_get (returns_bind_lift fun _ _ => ?_)
  split
  · rename_i previous hprevious
    obtain ⟨hmem, howner, hkey⟩ := receipt_of_bind hprevious
    refine returns_bind_raiseIf fun hsame => returns_bind_lift fun m hm => returns_pure ?_
    exact ⟨rfl, previous, hmem, answers_of_replay howner hkey hsame, describes_of_get hs hmem hm⟩
  · refine returns_bind ((returns_insertArtifact _).mono ?_)
    rintro _ db₁ ⟨hnew, rfl⟩
    refine returns_bind ((returns_insertVersion _).mono ?_)
    rintro _ db₂ rfl
    refine returns_bind ((returns_insertReceipt _).mono ?_)
    rintro _ db₃ ⟨hfresh, rfl⟩
    exact returns_pure (.create c.artifact rfl rfl rfl rfl hnew ⟨rfl, rfl, rfl, rfl⟩ hfresh)

theorem follows_store :
    FollowsFor sha256 (.create c) (c.store sha256) .idle (Settled sha256 (.create c)) := by
  unfold store
  refine follows_bind (follows_checkWorkflow ..) ?_ fun _ _ _ => trivial
  rintro _ _ ⟨rfl, -⟩
  refine follows_bind (follows_storeBlob c.content) ?_ fun _ _ _ => trivial
  rintro _ hash ⟨hhash, rfl⟩
  refine follows_bind (Q := fun phase result => ∀ won, result = .ok won →
      match won with
      | some m => Settled sha256 (.create c) phase (.ok m)
      | none => phase = .settled (c.receipt hash)) ?_ ?_ fun _ _ _ => trivial
  · refine follows_transaction (fun db hdb => (returns_commit hdb.sound hhash).mono ?_)
      (fun db hdb => .read hdb.knows) fun _ _ he => by cases he
    intro won db' hwon
    cases won with
    | some m =>
      obtain ⟨rfl, r, hr, hanswers, hdescribes⟩ := hwon
      refine ⟨.settled r, .read hr, fun won he => ?_⟩
      cases he
      exact ⟨r, rfl, hanswers, hdescribes⟩
    | none =>
      refine ⟨.settled (c.receipt hash), .commit hwon (Table.mem_iff_get.mp hdb.knows) rfl,
        fun won he => ?_⟩
      cases he
      rfl
  · intro phase won hwon
    have hwon := hwon won rfl
    cases won with
    | some m => exact follows_pure hwon
    | none =>
      obtain rfl := hwon
      exact follows_getVersion rfl rfl (hhash ▸ answers_receipt)

theorem follows_call :
    FollowsFor sha256 (.create c) (c.call sha256) .idle (Settled sha256 (.create c)) := by
  unfold call
  refine follows_bind_lift (fun _ _ => ?_) fun _ => trivial
  refine follows_bind (follows_findReceipt ..) ?_ fun _ _ _ => trivial
  intro phase found hfound
  cases found with
  | none =>
    obtain rfl : phase = .idle := hfound
    exact follows_store
  | some r =>
    obtain ⟨rfl, howner, hkey⟩ := hfound
    refine follows_bind_lift (fun _ hsame => ?_) fun _ => trivial
    exact follows_getVersion rfl rfl (answers_of_replay howner hkey (raiseIf_eq_ok.mp hsame))

end Create

namespace AddVersion

variable {c : AddVersion}

theorem answers_of_replay (howner : r.owner = c.owner)
    (hkey : truthy c.idempotencyKey = some r.idempotencyKey)
    (hsame : c.differs (contentHash sha256 c.content) r.result = false) :
    Answers sha256 (.addVersion c) r ∧ c.artifactId = r.result.artifactId := by
  simp only [differs, Bool.or_eq_false_iff, bne_eq_false_iff_eq] at hsame
  exact ⟨⟨howner, fun key h => Option.some.inj (hkey.symm.trans h), hsame.2⟩, hsame.1.symm⟩

theorem answers_receipt (filename : String) (version : Nat) :
    Answers sha256 (.addVersion c) (c.receipt (contentHash sha256 c.content) filename version) where
  owner := rfl
  key key h := by
    have h : truthy c.idempotencyKey = some key := h
    simp [receipt, commitReceipt, effectKey, h]
  contentHash := rfl

theorem returns_commit (hs : Sound sha256 db) (hhash : hash = contentHash sha256 c.content) :
    Returns (c.commit hash) db fun won db' =>
      match won with
      | .inl m => db' = db ∧ ∃ r ∈ db.receipts, Answers sha256 (.addVersion c) r ∧ Describes m r
      | .inr version => version = c.expectedCurrentVersion + 1 ∧
        ∃ filename, Commit db (c.row hash version) (c.receipt hash filename version) db' := by
  subst hhash
  unfold commit
  refine returns_bind_get (returns_bind_lift fun _ _ => ?_)
  split
  · rename_i previous hprevious
    obtain ⟨hmem, howner, hkey⟩ := receipt_of_bind hprevious
    refine returns_bind_raiseIf fun hsame => returns_bind_lift fun m hm => returns_pure ?_
    obtain ⟨hanswers, hid⟩ := answers_of_replay howner hkey hsame
    exact ⟨rfl, previous, hmem, hanswers, describes_of_get hs hmem (hid ▸ hm)⟩
  · refine returns_bind_lift fun a ha => returns_bind_raiseIf fun hexpected => ?_
    obtain ⟨hmem, hid, howner⟩ := artifact_eq_some (fetch_eq_ok.mp ha)
    rw [bne_eq_false_iff_eq] at hexpected
    refine returns_bind ((returns_insertVersion _).mono ?_)
    rintro _ db₁ rfl
    refine returns_bind_modify (returns_bind ((returns_insertReceipt _).mono ?_))
    rintro _ db₂ ⟨hfresh, rfl⟩
    refine returns_pure ⟨by rw [hexpected], a.filename, ?_⟩
    exact .extend a c.now hmem hid rfl howner ⟨rfl, rfl, rfl, rfl⟩ hfresh

theorem follows_call :
    FollowsFor sha256 (.addVersion c) (c.call sha256) .idle (Settled sha256 (.addVersion c)) := by
  unfold call
  refine follows_bind (follows_checkWorkflow ..) ?_ fun _ _ _ => trivial
  rintro _ _ ⟨rfl, -⟩
  refine follows_bind (follows_storeBlob c.content) ?_ fun _ _ _ => trivial
  rintro _ hash ⟨hhash, rfl⟩
  refine follows_bind (follows_findReceipt ..) ?_ fun _ _ _ => trivial
  intro phase found hfound
  cases found with
  | some r =>
    obtain ⟨rfl, howner, hkey⟩ := hfound
    refine follows_bind_lift (fun _ hsame => ?_) fun _ => trivial
    obtain ⟨hanswers, hid⟩ := answers_of_replay howner hkey (hhash ▸ raiseIf_eq_ok.mp hsame)
    exact follows_getVersion hid rfl hanswers
  | none =>
    obtain rfl : phase = .stored hash := hfound
    refine follows_bind (Q := fun phase result => ∀ won, result = .ok won →
        match won with
        | .inl m => Settled sha256 (.addVersion c) phase (.ok m)
        | .inr version => ∃ filename, phase = .settled (c.receipt hash filename version)) ?_ ?_
      fun _ _ _ => trivial
    · refine follows_transaction (fun db hdb => (returns_commit hdb.sound hhash).mono ?_)
        (fun db hdb => .read hdb.knows) fun _ _ he => by cases he
      intro won db' hwon
      cases won with
      | inl m =>
        obtain ⟨rfl, r, hr, hanswers, hdescribes⟩ := hwon
        refine ⟨.settled r, .read hr, fun won he => ?_⟩
        cases he
        exact ⟨r, rfl, hanswers, hdescribes⟩
      | inr version =>
        obtain ⟨hversion, filename, hcommit⟩ := hwon
        refine ⟨.settled (c.receipt hash filename version),
          .commit hcommit (Table.mem_iff_get.mp hdb.knows) ⟨rfl, hversion⟩, fun won he => ?_⟩
        cases he
        exact ⟨filename, rfl⟩
    · intro phase won hwon
      have hwon := hwon won rfl
      cases won with
      | inl m => exact follows_pure hwon
      | inr version =>
        obtain ⟨filename, rfl⟩ := hwon
        exact follows_getVersion rfl rfl (hhash ▸ answers_receipt filename version)

end AddVersion

/-- **Both calls follow the abstract one.** -/
theorem follows_request (request : Request) :
    FollowsFor sha256 request (request.call sha256) .idle (Settled sha256 request) := by
  cases request with
  | create c => exact Create.follows_call
  | addVersion c => exact AddVersion.follows_call

end LumaOS.Artifacts
