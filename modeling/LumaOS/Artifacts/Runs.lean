import LumaOS.Artifacts.Calls

/-!
# Every interleaving of the artifact calls

Any number of `create_bytes` and `add_version` calls on a store that begins empty, one transaction
or file operation at a time, with any of them failing and any call cut off anywhere. `Holds` is the
invariant: the store is `Sound`, every call is right about what it knows, and every commit of
`add_version` left the version it was to leave.

* **`artifacts_commit_once`**: versions are gapless, receipts and versions match one to one, every
  object is there, nothing committed changes, a key commits once and answers every call that gives
  it, and of the calls that expect one version at most one commits.
-/

namespace LumaOS.Artifacts

open LumaOS.Base LumaOS.Text

/-- Call `t.call` is an `add_version` that expects version `expected` of the artifact, and its
action `t` commits. -/
def Bumps (requests : List Request) (artifactId : String) (expected : Nat)
    (t : Taken Action Database) : Prop :=
  t.before.versions ≠ t.after.versions ∧ ∃ c, requests[t.call]? = some (.addVersion c) ∧
    c.artifactId = artifactId ∧ c.expectedCurrentVersion = expected

/-- The abstract call of request `i`. -/
def AllowedAt (sha256 : Bytes → Vector UInt8 32) (requests : List Request) (i : Nat) (phase : Phase)
    (label : Action) (db db' : Database) (phase' : Phase) : Prop :=
  ∃ request, requests[i]? = some request ∧ Allowed sha256 request phase label db db' phase'

def SettledAt (sha256 : Bytes → Vector UInt8 32) (requests : List Request) (i : Nat) (phase : Phase)
    (result : Except Failure Metadata) : Prop :=
  ∀ request, requests[i]? = some request → Settled sha256 request phase result

/-- **The invariant of a run.** -/
structure Holds (sha256 : Bytes → Vector UInt8 32) (requests : List Request)
    (history : List (Taken Action Database)) (db : Database) (phases : Nat → Phase) : Prop where
  sound : Sound sha256 db
  knows : ∀ i, (phases i).Knows db
  bumped : ∀ t ∈ history, ∀ artifactId expected, Bumps requests artifactId expected t →
    ∃ v ∈ db.versions, v.artifactId = artifactId ∧ v.version = expected + 1
  once : history.Pairwise fun t u => ∀ artifactId expected,
    Bumps requests artifactId expected t → ¬Bumps requests artifactId expected u

/-- Versions and receipts are only ever appended. -/
structure Appends (db db' : Database) : Prop where
  versions : db.versions <+: db'.versions
  receipts : db.receipts <+: db'.receipts
  objects : ∀ hash, hash ∈ db.objects → hash ∈ db'.objects

variable {sha256 : Bytes → Vector UInt8 32} {requests : List Request} {request : Request}
  {phase phase' : Phase} {label : Action} {db db' : Database}

theorem Appends.refl (db : Database) : Appends db db :=
  ⟨List.prefix_refl _, List.prefix_refl _, fun _ h => h⟩

theorem Appends.trans {db'' : Database} (h : Appends db db') (h' : Appends db' db'') :
    Appends db db'' :=
  ⟨h.versions.trans h'.versions, h.receipts.trans h'.receipts,
    fun hash hmem => h'.objects hash (h.objects hash hmem)⟩

theorem appends_linked (db : Database) (hash : String) (content : Bytes) :
    Appends db (db.linked hash content) := by
  obtain ⟨-, hv, hr, -⟩ := linked_tables db hash content
  refine ⟨hv ▸ List.prefix_refl _, hr ▸ List.prefix_refl _, fun key hkey => ?_⟩
  rw [Table.mem_iff_get] at hkey ⊢
  obtain ⟨old, hold⟩ := hkey
  rcases linked_object db hash key content with ⟨old', -, h⟩ | ⟨hnone, -⟩
  · exact ⟨old', h⟩
  · rw [hold] at hnone
    cases hnone

theorem Allowed.appends (h : Allowed sha256 request phase label db db' phase') :
    Appends db db' := by
  cases h with
  | read => exact Appends.refl db
  | publish content => exact appends_linked ..
  | commit h =>
    refine ⟨?_, ?_, ?_⟩
    · rw [h.versions]
      exact List.prefix_append ..
    · rw [h.receipts]
      exact List.prefix_append ..
    · rw [h.objects]
      exact fun _ hmem => hmem

theorem Allowed.sound (h : Allowed sha256 request phase label db db' phase')
    (hs : Sound sha256 db) : Sound sha256 db' := by
  cases h with
  | read => exact hs
  | publish content => exact hs.link content
  | commit h hobject => exact hs.commit h hobject

theorem mem_linked (db : Database) (hash : String) (content : Bytes) :
    hash ∈ (db.linked hash content).objects := by
  rw [Table.mem_iff_get]
  rcases linked_object db hash hash content with ⟨old, -, h⟩ | ⟨-, h⟩
  · exact ⟨old, h⟩
  · rw [if_pos rfl] at h
    exact ⟨content, h⟩

theorem Allowed.learns (h : Allowed sha256 request phase label db db' phase') :
    phase'.Knows db' := by
  cases h with
  | read hknows => exact hknows
  | publish content => exact mem_linked ..
  | commit h =>
    show _ ∈ db'.receipts
    rw [h.receipts]
    exact List.mem_append_right _ (List.mem_singleton.mpr rfl)

theorem Phase.Knows.appends (h : phase.Knows db) (ha : Appends db db') : phase.Knows db' := by
  cases phase with
  | idle => exact trivial
  | stored hash => exact ha.objects hash h
  | settled r => exact ha.receipts.subset h

/-- A step that commits for an `add_version` leaves the version after the expected one, which was
not there before. -/
theorem Allowed.bumps {i : Nat} {artifactId : String} {expected : Nat}
    (hrequest : requests[i]? = some request)
    (h : Allowed sha256 request phase label db db' phase') (hs : Sound sha256 db)
    (hbumps : Bumps requests artifactId expected ⟨i, label, db, db'⟩) :
    (∃ v ∈ db'.versions, v.artifactId = artifactId ∧ v.version = expected + 1) ∧
      ∀ v ∈ db.versions, ¬(v.artifactId = artifactId ∧ v.version = expected + 1) := by
  obtain ⟨hchanged, c, hc, rfl, rfl⟩ := hbumps
  obtain rfl : request = .addVersion c := Option.some.inj (hrequest.symm.trans hc)
  cases h with
  | read => exact absurd rfl hchanged
  | publish content => exact absurd (linked_tables ..).2.1.symm hchanged
  | commit h _ hcommits =>
    obtain ⟨hid, hversion⟩ := hcommits
    refine ⟨⟨_, ?_, hid, hversion⟩, fun w hw htarget => ?_⟩
    · rw [h.versions]
      exact List.mem_append_right _ (List.mem_singleton.mpr rfl)
    · refine h.new_version hs w hw ?_
      rw [htarget.1, htarget.2, hid, hversion]

theorem keeps_holds : Pool.Keeps (AllowedAt sha256 requests) (fun _ => Known sha256)
    (fun _ => True) (Holds sha256 requests) where
  known h i := ⟨h.sound, h.knows i⟩
  step := by
    rintro history db phases h i label db' phase' - ⟨request, hrequest, hallowed⟩
    have happends := hallowed.appends
    refine ⟨hallowed.sound h.sound, fun j => ?_, fun t ht artifactId expected hbumps => ?_, ?_⟩
    · by_cases hij : j = i
      · subst hij
        rw [Function.update_self]
        exact hallowed.learns
      · rw [Function.update_of_ne hij]
        exact (h.knows j).appends happends
    · rcases List.mem_append.mp ht with ht | ht
      · obtain ⟨v, hv, htarget⟩ := h.bumped t ht artifactId expected hbumps
        exact ⟨v, happends.versions.subset hv, htarget⟩
      · rw [List.mem_singleton.mp ht] at hbumps
        exact (hallowed.bumps hrequest h.sound hbumps).1
    · rw [List.pairwise_append]
      refine ⟨h.once, List.pairwise_singleton ..,
        fun t ht u hu artifactId expected hbumps hu' => ?_⟩
      rw [List.mem_singleton.mp hu] at hu'
      obtain ⟨v, hv, htarget⟩ := h.bumped t ht artifactId expected hbumps
      exact (hallowed.bumps hrequest h.sound hu').2 v hv htarget

/-! ## Runs -/

/-- The calls of the requests on an empty store. -/
def pool (sha256 : Bytes → Vector UInt8 32) (workflows : Table Workflow) (steps : List Step)
    (requests : List Request) : Pool Action Database Failure Metadata :=
  .start (Database.fresh workflows steps) (requests.map (Request.call sha256))

/-- Calls of the requests, in some phases, on a store where the invariant holds. -/
abbrev TracksRequests (sha256 : Bytes → Vector UInt8 32) (requests : List Request) :=
  Pool.Tracks (AllowedAt sha256 requests) (fun _ => Known sha256) (SettledAt sha256 requests)

theorem tracks_pool (workflows : Table Workflow) (steps : List Step) :
    TracksRequests sha256 requests (Holds sha256 requests) (pool sha256 workflows steps requests)
      fun _ => .idle where
  calls i call hcall := by
    unfold pool Pool.start at hcall
    rw [List.getElem?_map] at hcall
    obtain ⟨request, hrequest, rfl⟩ := Option.map_eq_some_iff.mp hcall
    refine Prog.Follows.mono ((follows_request request).allow fun _ _ _ _ _ h =>
      ⟨request, hrequest, h⟩) fun phase result h request' hrequest' => ?_
    rw [hrequest] at hrequest'
    cases hrequest'
    exact h
  holds := ⟨sound_fresh .., fun _ => trivial, fun _ ht => absurd ht List.not_mem_nil, .nil⟩

theorem run_tracks (sha256 : Bytes → Vector UInt8 32) (workflows : Table Workflow)
    (steps : List Step) (requests : List Request) (ts : List (Pool.Turn Failure)) :
    ∃ phases, TracksRequests sha256 requests (Holds sha256 requests)
      ((pool sha256 workflows steps requests).run ts) phases :=
  Pool.rule keeps_holds (tracks_pool workflows steps) ts fun _ _ => trivial

/-- What a run committed, a longer run still has. -/
theorem run_appends (sha256 : Bytes → Vector UInt8 32) (workflows : Table Workflow)
    (steps : List Step) (requests : List Request) (ts us : List (Pool.Turn Failure)) :
    Appends ((pool sha256 workflows steps requests).run ts).shared
      ((pool sha256 workflows steps requests).run (ts ++ us)).shared := by
  obtain ⟨phases, h⟩ := run_tracks sha256 workflows steps requests ts
  set base := ((pool sha256 workflows steps requests).run ts).shared
  have hkeeps : Pool.Keeps (AllowedAt sha256 requests) (fun _ => Known sha256) (fun _ => True)
      fun history db phases => Holds sha256 requests history db phases ∧ Appends base db := by
    refine ⟨fun h => keeps_holds.known h.1, ?_⟩
    rintro history db phases ⟨h, hbase⟩ i label db' phase' - hallowed
    refine ⟨keeps_holds.step h trivial hallowed, ?_⟩
    obtain ⟨request, -, hallowed⟩ := hallowed
    exact hbase.trans hallowed.appends
  obtain ⟨phases', h'⟩ := Pool.rule hkeeps ⟨h.calls, h.holds, Appends.refl _⟩ us fun _ _ => trivial
  rw [Pool.run_append]
  exact h'.holds.2

/-- **The store, in full**: what is true of the tables and objects of every reachable store. -/
structure Consistent (sha256 : Bytes → Vector UInt8 32) (db : Database) : Prop where
  gapless : ∀ a ∈ db.artifacts, ∀ n,
    (∃ v ∈ db.versions, v.artifactId = a.artifactId ∧ v.version = n) ↔ 1 ≤ n ∧ n ≤ a.currentVersion
  distinct : (db.versions.map fun v => (v.artifactId, v.version)).Nodup
  artifactOf : ∀ v ∈ db.versions, ∃ a ∈ db.artifacts, a.artifactId = v.artifactId
  receiptOf : ∀ v ∈ db.versions, ∃! r, r ∈ db.receipts ∧ Names r v
  versionOf : ∀ r ∈ db.receipts, ∃ v ∈ db.versions, Names r v
  objectOf : ∀ v ∈ db.versions, ∃ content, db.objects[v.contentHash]? = some content ∧
    contentHash sha256 content = v.contentHash
  oncePerKey : ∀ q ∈ db.receipts, ∀ r ∈ db.receipts, q.owner = r.owner →
    q.idempotencyKey = r.idempotencyKey → q = r

theorem Sound.consistent (h : Sound sha256 db) : Consistent sha256 db where
  gapless := h.versionsOf
  distinct := h.versionKeys
  artifactOf := h.artifactOf
  receiptOf v hv := by
    obtain ⟨r, hr, hnames⟩ := h.receipt_of_version hv
    exact ⟨r, ⟨hr, hnames⟩, fun q hq => h.eq_of_names hq.1 hr hq.2 hnames⟩
  versionOf r hr := h.version_of_receipt hr
  objectOf v hv := by
    obtain ⟨content, hcontent⟩ := h.objectOf v hv
    exact ⟨content, hcontent, h.hashed _ _ hcontent⟩
  oncePerKey q hq r hr howner hkey := h.eq_of_key hq hr howner hkey

/-- **Each key commits once and no update is lost.** In every store that any calls can reach, in any
order and with any failures: the tables and the objects agree; what is committed stays; a call that
returns has the version of a receipt for its owner, its key and the hash of its content; and of the
`add_version` calls that expect one version of an artifact, at most one commits, once. -/
theorem artifacts_commit_once (sha256 : Bytes → Vector UInt8 32) (workflows : Table Workflow)
    (steps : List Step) (requests : List Request) (ts : List (Pool.Turn Failure)) :
    let p := (pool sha256 workflows steps requests).run ts
    Consistent sha256 p.shared ∧
    (∀ us, Appends p.shared ((pool sha256 workflows steps requests).run (ts ++ us)).shared) ∧
    (∀ (i : Nat) (request : Request) (m : Metadata), requests[i]? = some request →
      p.calls[i]? = some (.done (.ok m)) →
      ∃ r ∈ p.shared.receipts, Answers sha256 request r ∧ Describes m r) ∧
    p.history.Pairwise fun t u => ∀ artifactId expected,
      Bumps requests artifactId expected t → ¬Bumps requests artifactId expected u := by
  intro p
  obtain ⟨phases, h⟩ := run_tracks sha256 workflows steps requests ts
  refine ⟨h.holds.sound.consistent, fun us => run_appends sha256 workflows steps requests ts us,
    fun i request m hrequest hdone => ?_, h.holds.once⟩
  obtain ⟨r, hphase, hanswers, hdescribes⟩ := h.calls i _ hdone request hrequest
  have hknows := h.holds.knows i
  rw [hphase] at hknows
  exact ⟨r, hknows, hanswers, hdescribes⟩

end LumaOS.Artifacts
