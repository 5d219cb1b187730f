import LumaOS.Publication.Steps
import LumaOS.Base.Run

/-!
# Runs of the native artifact store

A run is a list of calls, each with the replies its process sees: it is cut off where they end. Two
kinds of results hold of every run from the empty store:

* what stays: the invariant of the disk, the committed pairs and the retained preparations, and
  what a publication that returned says (`step_change`, `sound_change`);
* what is never blocked: with replies that all grant, `abort` gets through with the review that
  `status` reports, `reconcile` with the review of a complete pair, and after either a new pair is
  published (`completes_abort`, `completes_reconcile`, `completes_publish`).
-/

namespace LumaOS.Publication

open LumaOS.Base LumaOS.Text LumaOS.Json

open Mut (exec)

variable (O : Outside) (installation : String)

/-! ## Calls -/

/-- A call of a method of the store. -/
inductive Request where
  | publish (receipt : Receipt) (content : Bytes)
  | reconcile (request review : String)
  | abort (request review : String)

/-- What a call returns. -/
inductive Answer where
  | published (replayed : Bool)
  | reconciled (receipt : Receipt)
  | aborted

/-- The request a call names. -/
def Request.id : Request → String
  | .publish receipt _ => receipt.requestId
  | .reconcile request _ => request
  | .abort request _ => request

def Request.method : Request → Method Answer
  | .publish receipt content => do
    let replayed ← Publication.publish O installation receipt content
    pure (.published replayed)
  | .reconcile request review => do
    let receipt ← Publication.reconcile O installation request review
    pure (.reconciled receipt)
  | .abort request review => do
    Publication.abort O installation request review
    pure .aborted

/-- A call and the replies that its process sees. -/
structure Op where
  request : Request
  replies : List (Reply Space)

/-- What a call returned, and the disk it left. -/
def step (d : Disk) (op : Op) : Result Answer × Disk :=
  ((exec (op.request.method O installation) ⟨d, op.replies⟩).1,
    (op.request.method O installation).leaves d op.replies)

/-! ## What stays -/

/-- Nothing committed or retained is lost. -/
structure Disk.Keeps (d d' : Disk) : Prop where
  committed : ∀ (id : String) (dir : Dir), d.committed[id]? = some dir →
    d'.committed[id]? = some dir
  retained : ∀ (id : String) (dir : Dir), d.retained[id]? = some dir →
    d'.retained[id]? = some dir

theorem Disk.Keeps.trans {a b c : Disk} (hab : a.Keeps b) (hbc : b.Keeps c) : a.Keeps c :=
  ⟨fun id dir h => hbc.committed id dir (hab.committed id dir h),
    fun id dir h => hbc.retained id dir (hab.retained id dir h)⟩

/-- What a publication that returned says. -/
def Says (d d' : Disk) : Request → Answer → Prop
  | .publish r _, .published true => d' = d ∧ ∃ content, d.committed[r.requestId]? =
      some (pairDir r content)
  | .publish r content, .published false => d.committed[r.requestId]? = none ∧
      d'.committed[r.requestId]? = some (pairDir r content)
  | _, _ => True

variable {O installation} {d d' : Disk} {request : String} {r : Receipt} {content : Bytes}

theorem keeps_insert {t : Table Dir} {dir dir' : Dir} {id : String} (hnew : t[request]? = none)
    (h : t[id]? = some dir') : (t.insert request dir)[id]? = some dir' := by
  rw [Table.get_insert, if_neg, h]
  rintro rfl
  rw [hnew] at h
  cases h

theorem keeps_change (h : Change O installation d request d') : d.Keeps d' := by
  cases h with
  | same | prepared r content dir hpending h hstage => exact ⟨fun _ _ h => h, fun _ _ h => h⟩
  | committed r content hpending h =>
    exact ⟨fun _ _ hid => keeps_insert h.uncommitted hid, fun _ _ h => h⟩
  | retained r content dir hpending h hstage =>
    exact ⟨fun _ _ h => h, fun _ _ hid => keeps_insert h.unretained hid⟩

/-- **What one call does.** -/
theorem step_change (hs : Sound O installation d) (op : Op)
    (hreads : ∀ r content, op.request = .publish r content → O.Reads r) :
    Change O installation d op.request.id (step O installation d op).2 ∧
      ∀ answer, (step O installation d op).1 = .ok answer →
        Says d (step O installation d op).2 op.request answer := by
  have hends : Ends (op.request.method O installation) d
      (fun answer d' => Change O installation d op.request.id d' ∧ Says d d' op.request answer)
      (Change O installation d op.request.id) := by
    rcases op with ⟨⟨r, content⟩ | ⟨request, review⟩ | ⟨request, review⟩, replies⟩
    · refine ends_bind (ends_publish hs (hreads r content rfl)) fun replayed d' h => ends_pure ?_
      cases h with
      | replayed content' hoffer hget => exact ⟨.same, rfl, content', hget⟩
      | committed h hpending =>
        exact ⟨.committed r content (Or.inl hpending) h, h.uncommitted, Table.get_insert_self⟩
    · refine ends_bind (ends_reconcile hs) fun receipt d' h => ends_pure ⟨?_, trivial⟩
      cases h with
      | replayed content hoffer hget => exact .same
      | committed content h hpending => exact .committed receipt content (Or.inr hpending) h
    · refine ends_bind (ends_abort hs) fun _ d' h => ends_pure ⟨?_, trivial⟩
      cases h with
      | retained dir h => exact .same
      | moved r content dir h => exact .retained r content dir h.pending h.ready h.stage
  refine ⟨hends.leaves (fun _ _ h => h.1) op.replies, fun answer hanswer => ?_⟩
  have := hends op.replies
  unfold step at hanswer ⊢
  unfold Calls.leaves
  rcases he : exec (op.request.method O installation) ⟨d, op.replies⟩ with ⟨e | a, s⟩
  · rw [he] at hanswer
    cases hanswer
  · rw [he] at hanswer this
    cases hanswer
    exact this.2

/-! ## What gets through -/

/-- The free space that a publication asks for. -/
def Ample (stored : Nat) (space : Space) : Prop := spaceSuffices space stored = .ok ()

section Completes

variable {review : String} {dir : Dir} {receipts : List Receipt} {G : Space → Prop}

theorem completes_look {α : Type} {f : Disk → Result α} {a : α} (h : f d = .ok a) :
    Completes G (look f) d a d :=
  (performs_look (E := fun _ => True) trivial h).completes

theorem completes_authorize : Completes G authorize d () d :=
  (performs_syncAll (E := fun _ => True) trivial).completes

/-- The capacity checks pass where there is room. -/
theorem capacity_of_ready (hall : List.Forall₂ (Holds O installation) d.committed.toList receipts)
    (h : Ready O installation d request r content) {bytes : Nat} (hbytes : bytes ≤ r.storedBytes) :
    (receipts.length + d.retained.keys.length ≥ maxRecords ||
      used d.committed + used d.retained + bytes > maxTotal) = false := by
  have hrecords := h.records
  have htotal := h.bytes
  rw [length_receipts hall, Std.ExtTreeMap.length_keys, Bool.or_eq_false_iff,
    decide_eq_false_iff_not, decide_eq_false_iff_not]
  omega

theorem find_eq_none (hall : List.Forall₂ (Holds O installation) d.committed.toList receipts)
    (h : d.committed[request]? = none) :
    (receipts.find? fun r => r.requestId == request) = none := by
  rw [List.find?_eq_none]
  intro r hr hrid
  have hmem : r.requestId ∈ receipts.map Receipt.requestId := List.mem_map_of_mem hr
  rw [requestIds hall, eq_of_beq hrid, Table.mem_keys_iff_get, h] at hmem
  simp at hmem

theorem contains_retained (h : d.retained[request]? = none) :
    d.retained.keys.contains request = false := by
  rw [← Table.not_mem_iff_get, ← Std.ExtTreeMap.mem_keys] at h
  simpa using h

/-- **A new pair is published** when nothing is pending and there is room. -/
theorem completes_publish (hs : Sound O installation d) (hpending : d.pending = ∅)
    (h : Ready O installation d r.requestId r content) :
    Completes (Ample r.storedBytes) (publish O installation r content) d false
      (d.committing r.requestId (pairDir r content)) := by
  obtain ⟨receipts, hinventory, hall⟩ := inventory_eq hs
  have hcontent : (content.length != r.contentBytes.toNat ||
      O.digest content != r.contentSha256) = false := by
    simp [h.offer.length, h.offer.digest]
  have hempty : (!d.pending.keys.isEmpty) = false := by
    rw [hpending]
    simp
  refine completes_bind_lift h.offer.valid ?_
  refine completes_bind_refuseIf hcontent ?_
  refine completes_bind completes_authorize ?_
  refine completes_bind (completes_look hinventory) ?_
  refine completes_bind (completes_look (names_retained hs)) ?_
  refine completes_bind_refuseIf (contains_retained h.unretained) ?_
  rw [find_eq_none hall h.uncommitted]
  refine completes_bind_refuseIf hempty ?_
  refine completes_bind_refuseIf (capacity_of_ready hall h (Nat.le_refl _)) ?_
  have hspace : Completes (Ample r.storedBytes)
      (call fun space => liftM (spaceSuffices space r.storedBytes)) d () d :=
    completes_call fun space hspace => congrArg (·, d) hspace
  exact completes_bind hspace (performs_prepare hpending h).completes

/-- **A complete preparation is reconciled** with the review of its receipt. -/
theorem completes_reconcile (hs : Sound O installation d)
    (hp : Preparing O installation d request r content (pairDir r content)) :
    Completes G (reconcile O installation request (r.review O)) d r
      (d.committing request (pairDir r content)) := by
  obtain ⟨receipts, hinventory, hall⟩ := inventory_eq hs
  have hget : d.pending[request]? = some (pairDir r content) := by
    rw [hp.pending, Table.get_single, if_pos rfl]
  refine completes_bind_refuseIf ?_ ?_
  · rw [hp.offer.identifier, Receipt.review, isHash_digest]
    rfl
  refine completes_bind (completes_look hinventory) ?_
  dsimp only
  rw [find_eq_none hall hp.uncommitted]
  refine completes_bind_refuseIf ?_ ?_
  · rw [hp.pending, Table.keys_single]
    exact bne_self_eq_false _
  refine completes_bind (completes_look (pair_of_offer hp.offer hget)) ?_
  refine completes_bind_refuseIf (bne_self_eq_false _) ?_
  refine completes_bind (completes_look (names_retained hs)) ?_
  refine completes_bind_refuseIf (capacity_of_ready hall hp.ready (Nat.le_refl _)) ?_
  have hcommit := performs_commit (G := G) (E := fun _ => True) (a := r) hp.ready trivial trivial
  rw [← hp.eq_preparing] at hcommit
  exact hcommit.completes

/-- **A preparation is aborted** with the review of what is there. -/
theorem completes_abort (hs : Sound O installation d)
    (hp : Preparing O installation d request r content dir) {seen : Value}
    (hseen : observation O installation d.pending request = .ok (seen, weight dir)) :
    Completes G (abort O installation request (O.digest (toVec seen))) d ()
      (d.retaining request dir) := by
  obtain ⟨receipts, hinventory, hall⟩ := inventory_eq hs
  have hany : (d.retained.keys.any fun r => r == request) = false := by
    rw [List.any_eq_false]
    intro id hid hrequest
    rw [eq_of_beq hrequest, Table.mem_keys_iff_get, hp.unretained] at hid
    simp at hid
  refine completes_bind_refuseIf ?_ ?_
  · rw [hp.offer.identifier, isHash_digest]
    rfl
  refine completes_bind (completes_look hinventory) ?_
  refine completes_bind_refuseIf ?_ ?_
  · rw [List.any_eq_false]
    exact List.find?_eq_none.mp (find_eq_none hall hp.uncommitted)
  refine completes_bind (completes_look (names_retained hs)) ?_
  dsimp only
  rw [hany]
  refine completes_bind_refuseIf ?_ ?_
  · rw [hp.pending, Table.keys_single]
    simp
  refine completes_bind (completes_look hseen) ?_
  refine completes_bind_refuseIf ?_ ?_
  · have hweight := weight_le hp.stage
    rw [← hp.offer.storedBytes] at hweight
    rw [capacity_of_ready hall hp.ready hweight]
    rfl
  refine completes_bind_refuseIf (bne_self_eq_false _) ?_
  refine completes_bind completes_authorize ?_
  exact (performs_retain hp).completes

/-- **`status` reports the review** under which the preparation can be aborted. -/
theorem status_eq (hs : Sound O installation d)
    (hp : Preparing O installation d request r content dir) {seen : Value}
    (hseen : observation O installation d.pending request = .ok (seen, weight dir)) :
    ∃ report, status O installation d = .ok report ∧
      (report.get "pending").get "request_id" = .string request ∧
      (report.get "pending").get "abort_review_sha256" = .string (O.digest (toVec seen)) := by
  obtain ⟨receipts, hinventory, -⟩ := inventory_eq hs
  have hentries : ∀ id ∈ d.retained.keys, ∃ v, retainedEntry O installation d id = .ok v := by
    intro id hid
    obtain ⟨dir, hdir⟩ := Table.mem_keys_iff_get.mp hid
    obtain ⟨r, content, hoffer, hstage⟩ := hs.retained (id, dir) (Table.mem_toList_iff_get.mpr hdir)
    obtain ⟨seen, hseen⟩ := observation_of_stage hoffer hstage hdir
    exact ⟨_, by rw [retainedEntry, hseen]; rfl⟩
  obtain ⟨entries, hmapM⟩ := mapM_completes hentries
  have hproposal : (proposal O installation d request).get "request_id" = .string request ∧
      (proposal O installation d request).get "abort_review_sha256" =
        .string (O.digest (toVec seen)) := by
    unfold proposal
    rw [hseen]
    cases pair O installation d.pending request <;> exact ⟨rfl, rfl⟩
  refine ⟨.object [("environment", .string "lab"), ("gate_closing", .bool false),
    ("pending", proposal O installation d request), ("product_admin_active", .bool false),
    ("records", .array (receipts.map fun r => sorted r.toJson)), ("retained", .array entries),
    ("rollback_protected", .bool false), ("schema_version", .number 1),
    ("storage_bytes", .number (used d.committed + used d.retained : Nat))], ?_, hproposal⟩
  simp only [status, hinventory, hp.pending, Table.keys_single, names_retained hs, bind_eq_ok]
  exact ⟨_, rfl, _, rfl, entries, hmapM, rfl⟩

end Completes

/-! ## Every reachable disk -/

section Settled

variable (O installation)

/-- Nothing is pending, and every new pair that there is room for gets published. -/
def Open (d : Disk) : Prop :=
  d.pending = ∅ ∧ ∀ r content, Ready O installation d r.requestId r content →
    Completes (Ample r.storedBytes) (publish O installation r content) d false
      (d.committing r.requestId (pairDir r content))

/-- **What holds of every reachable disk.** -/
structure Settled (d : Disk) : Prop where
  inventory : ∃ receipts, inventory O installation d =
      .ok (receipts, d.pending.keys, used d.committed + used d.retained) ∧
    receipts.map Receipt.requestId = d.committed.keys
  apart : ∀ id, (id ∈ d.committed → id ∉ d.retained ∧ id ∉ d.pending) ∧
    (id ∈ d.retained → id ∉ d.pending)
  pending : d.pending.size ≤ 1
  records : d.committed.size + d.retained.size + d.pending.size ≤ maxRecords
  bytes : used d.committed + used d.retained + used d.pending ≤ maxTotal
  publishes : d.pending = ∅ → Open O installation d
  aborts : ∀ request ∈ d.pending, ∃ report review d', status O installation d = .ok report ∧
    (report.get "pending").get "request_id" = .string request ∧
    (report.get "pending").get "abort_review_sha256" = .string review ∧
    Completes (fun _ => True) (abort O installation request review) d () d' ∧
    Open O installation d'
  reconciles : ∀ (request : String) r content, d.pending[request]? = some (pairDir r content) →
    Offer O installation request r content → ∃ d',
      Completes (fun _ => True) (reconcile O installation request (r.review O)) d r d' ∧
      Open O installation d'

/-- The call committed the request. -/
def Commits (e : Event Disk Op (Result Answer)) (id : String) : Prop :=
  id ∉ e.before.committed ∧ id ∈ e.after.committed

variable {O installation}

theorem open_of_sound (hs : Sound O installation d) (h : d.pending = ∅) : Open O installation d :=
  ⟨h, fun _ _ hready => completes_publish hs h hready⟩

theorem used_empty : used (∅ : Table Dir) = 0 := rfl

theorem used_single {dir : Dir} : used (Table.single request dir) = weight dir := by
  rw [Table.single, used_insert Std.ExtTreeMap.getElem?_empty, used_empty, Nat.zero_add]

theorem Preparing.bytes_le {dir : Dir} (hp : Preparing O installation d request r content dir) :
    weight dir ≤ r.storedBytes := by
  rw [hp.offer.storedBytes]
  exact weight_le hp.stage

/-- A complete pair under `pending` is prepared, whichever pair it was meant to be. -/
theorem Sound.preparing_pair (hs : Sound O installation d)
    (hget : d.pending[request]? = some (pairDir r content))
    (hoffer : Offer O installation request r content) :
    Preparing O installation d request r content (pairDir r content) := by
  obtain hempty | ⟨id, r₀, content₀, dir, hp⟩ := hs.pending
  · rw [hempty] at hget
    simp at hget
  · have hle := hp.bytes_le
    have hbytes := hp.bytes
    rw [hp.pending, Table.get_single] at hget
    split at hget
    · rename_i hid
      cases hget
      subst hid
      rw [weight_pairDir, ← hoffer.storedBytes] at hle
      exact ⟨hp.pending, hoffer, stage_pairDir, hp.uncommitted, hp.unretained, hp.records,
        by omega⟩
    · cases hget

theorem Sound.preparing_of_mem (hs : Sound O installation d) (h : request ∈ d.pending) :
    ∃ r content dir, Preparing O installation d request r content dir := by
  obtain hempty | ⟨id, r, content, dir, hp⟩ := hs.pending
  · rw [hempty] at h
    simp at h
  · rw [hp.pending, Table.mem_iff_get, Table.get_single] at h
    obtain ⟨dir', hdir⟩ := h
    split at hdir
    · rename_i hid
      subst hid
      exact ⟨r, content, dir, hp⟩
    · cases hdir

/-- The pending preparation is within the limits as well. -/
theorem Sound.counts (hs : Sound O installation d) :
    d.committed.size + d.retained.size + d.pending.size ≤ maxRecords ∧
      used d.committed + used d.retained + used d.pending ≤ maxTotal := by
  have hrecords := hs.records
  have hbytes := hs.bytes
  obtain hempty | ⟨id, r, content, dir, hp⟩ := hs.pending
  · rw [hempty, used_empty, Std.ExtTreeMap.size_empty]
    exact ⟨hrecords, hbytes⟩
  · have hle := hp.bytes_le
    have hlt := hp.records
    have hroom := hp.bytes
    have hsize : (Table.single id dir).size = 1 := by
      rw [← Std.ExtTreeMap.length_keys, Table.keys_single]
      rfl
    rw [hp.pending, used_single, hsize]
    exact ⟨hlt, by omega⟩

/-- **A sound disk is settled.** -/
theorem Sound.settled (hs : Sound O installation d) : Settled O installation d := by
  obtain ⟨receipts, hinventory, hall⟩ := inventory_eq hs
  refine ⟨⟨receipts, hinventory, requestIds hall⟩, fun id => ⟨fun hid => ⟨?_, ?_⟩, fun hid => ?_⟩,
    hs.size_pending, hs.counts.1, hs.counts.2, open_of_sound hs, fun request hrequest => ?_,
    fun request r content hget hoffer => ?_⟩
  · obtain ⟨dir, hdir⟩ := Table.mem_iff_get.mp hid
    exact Table.not_mem_iff_get.mpr (hs.apart id dir hdir)
  · intro hpending
    obtain ⟨r, content, dir, hp⟩ := hs.preparing_of_mem hpending
    exact Table.not_mem_iff_get.mpr hp.uncommitted hid
  · intro hpending
    obtain ⟨r, content, dir, hp⟩ := hs.preparing_of_mem hpending
    exact Table.not_mem_iff_get.mpr hp.unretained hid
  · obtain ⟨r, content, dir, hp⟩ := hs.preparing_of_mem hrequest
    have hget : d.pending[request]? = some dir := by
      rw [hp.pending, Table.get_single, if_pos rfl]
    obtain ⟨seen, hseen⟩ := observation_of_stage hp.offer hp.stage hget
    obtain ⟨report, hreport, hid, hreview⟩ := status_eq hs hp hseen
    have hchange : Change O installation d request (d.retaining request dir) :=
      .retained r content dir hp.pending hp.ready hp.stage
    exact ⟨report, _, _, hreport, hid, hreview, completes_abort hs hp hseen,
      open_of_sound (sound_change hs hchange) rfl⟩
  · have hp := hs.preparing_pair hget hoffer
    have hchange : Change O installation d request (d.committing request (pairDir r content)) :=
      .committed r content (Or.inr hp.pending) hp.ready
    exact ⟨_, completes_reconcile hs hp, open_of_sound (sound_change hs hchange) rfl⟩

theorem sound_initialized : Sound O installation Disk.initialized :=
  ⟨fun e he => absurd (show e ∈ [] from he) List.not_mem_nil,
    fun e he => absurd (show e ∈ [] from he) List.not_mem_nil,
    fun _ _ h => by simp [Disk.initialized] at h, Nat.zero_le _, Nat.zero_le _, Or.inl rfl⟩

theorem commits_get {e : Event Disk Op (Result Answer)} {id : String} {d : Disk}
    (h : Commits e id) (hkeeps : e.after.Keeps d) : id ∈ d.committed := by
  obtain ⟨dir, hdir⟩ := Table.mem_iff_get.mp h.2
  exact Table.mem_iff_get.mpr ⟨dir, hkeeps.committed id dir hdir⟩

end Settled

/-- **No run wedges the store or loses what it holds.** After any calls on the empty store, each cut
off anywhere: the disk is `Settled`; nothing committed or retained has changed or gone; what a
publication returned is so; and no request was committed twice. -/
theorem store_settled_in_every_run (O : Outside) (installation : String) (ops : List Op)
    (hreads : ∀ op ∈ ops, ∀ r content, op.request = .publish r content → O.Reads r) :
    let run := events (step O installation) Disk.initialized ops
    (∀ d ∈ Disk.initialized :: run.map Event.after, Settled O installation d) ∧
      (Disk.initialized :: run.map Event.after).Pairwise Disk.Keeps ∧
      (∀ e ∈ run, ∀ answer, e.result = .ok answer → Says e.before e.after e.op.request answer) ∧
      ∀ past e rest, run = past ++ e :: rest → ∀ id, Commits e id → ∀ f ∈ past, ¬ Commits f id := by
  intro run
  have hstep : ∀ e : Event Disk Op (Result Answer),
      (∀ r content, e.op.request = .publish r content → O.Reads r) → Sound O installation e.before →
      e.Is (step O installation) → (e.before.Keeps e.after ∧ Sound O installation e.after) ∧
        ∀ answer, e.result = .ok answer → Says e.before e.after e.op.request answer := by
    intro e he hs his
    obtain ⟨hchange, htells⟩ := step_change hs e.op he
    rw [Event.Is] at his
    rw [his] at hchange htells
    exact ⟨⟨keeps_change hchange, sound_change hs hchange⟩, htells⟩
  have hevery := @events_rule _ _ _ (step O installation) _ _ hreads
    (I := fun past d => Sound O installation d ∧ ∀ f ∈ past, f.after.Keeps d)
    (fun past e he hI his => ?_) [] (s := Disk.initialized)
    ⟨sound_initialized, fun _ hf => absurd hf List.not_mem_nil⟩
  · refine ⟨fun d hd => ?_, ?_, fun e he => ?_, fun past e rest hrun id hcommits f hf hbefore => ?_⟩
    · rcases List.mem_cons.mp hd with rfl | hd
      · exact sound_initialized.settled
      · obtain ⟨e, he, rfl⟩ := List.mem_map.mp hd
        obtain ⟨past, rest, hrun⟩ := List.append_of_mem he
        exact (hevery past e rest hrun).2.2.2.1.settled
    · exact events_chain hreads (fun _ _ _ hab hbc => hab.trans hbc)
        (fun e he hs his => (hstep e he hs his).1) sound_initialized
    · obtain ⟨past, rest, hrun⟩ := List.append_of_mem he
      obtain ⟨hI, hC, his, -⟩ := hevery past e rest hrun
      exact (hstep e hC hI.1 his).2
    · obtain ⟨hI, -, -, -⟩ := hevery past e rest hrun
      exact hcommits.1 (commits_get hbefore (hI.2 f hf))
  · obtain ⟨⟨hkeeps, hsound⟩, -⟩ := hstep e he hI.1 his
    refine ⟨hsound, fun f hf => ?_⟩
    rcases List.mem_append.mp hf with hf | hf
    · exact (hI.2 f hf).trans hkeeps
    · rw [List.mem_singleton.mp hf]
      exact ⟨fun _ _ h => h, fun _ _ h => h⟩

/-! ## One publication, cut off -/

/-- A receipt as `publish_invoice` makes it. -/
def sampleReceipt : Receipt where
  schemaVersion := 1
  installation := repeatText "a" 64
  requestId := "request-1"
  authenticatedUid := 0
  workflowSha256 := repeatText "b" 64
  sourceSha256 := repeatText "c" 64
  contentSha256 := repeatText "0" 64
  contentBytes := 2
  filename := "invoice-summary.json"
  mediaType := "application/json"
  version := 1
  resourceLease := none

/-- Libraries that read one receipt. -/
def readerOf (r : Receipt) : Outside where
  sha256 _ := Vector.replicate 32 0
  fromSlice bytes := if bytes = r.bytes then pure r else refuse "unexpected receipt"

theorem reads_readerOf (r : Receipt) : (readerOf r).Reads r := if_pos rfl

/-- Its publication, cut off inside the first member. -/
def samplePublication : Op where
  request := .publish sampleReceipt [123, 125]
  replies := List.replicate 8 (.done ⟨409600, 4096⟩)

theorem store_settled_after_cut_off_publication :
    (Disk.initialized :: (events (step (readerOf sampleReceipt) sampleReceipt.installation)
        Disk.initialized [samplePublication]).map Event.after).Forall
      (Settled (readerOf sampleReceipt) sampleReceipt.installation) := by
  refine List.forall_iff_forall_mem.mpr (store_settled_in_every_run (readerOf sampleReceipt)
    sampleReceipt.installation [samplePublication] ?_).1
  intro op hop r content hrequest
  rw [List.mem_singleton] at hop
  subst hop
  cases hrequest
  exact reads_readerOf sampleReceipt

end LumaOS.Publication
