import LumaOS.Artifacts.PruneSteps
import LumaOS.Artifacts.PruneAlone
import LumaOS.Artifacts.Runs

/-!
# Prunes between the artifact calls

Any number of `create_bytes`, `add_version` and `prune_unreferenced_objects` calls on a store that
begins empty, one transaction or file operation at a time, with any of them failing and any call cut
off anywhere.

* **`prune_keeps_referenced_objects`**: where no commit of a digest overlaps a prune of its object
  (`Apart`), every committed version has its object; and a prune on its own gets through exactly
  where no staged file was left behind, and then leaves the objects that some version references.
* `prune_loses_committed_object`: what happens otherwise.
-/

namespace LumaOS.Artifacts

open LumaOS.Base LumaOS.Text

open Prog Proc

/-! ## Histories -/

/-- The action finds or publishes the object. -/
def Stores (t : Taken Touch Disk) (hash : String) : Prop :=
  (t.label = .find hash ∨ t.label = .link hash) ∧ hash ∈ t.after.db.objects

/-- The action commits a version with the digest. -/
def CommitsHash (t : Taken Touch Disk) (hash : String) : Prop :=
  t.after.db.hashes = t.before.db.hashes ++ [hash]

/-- **No overlap**: of a prune that removes an object, from its look at the references to the
removal, and a call that stores the object and commits a version with it, one is over before the
other begins. -/
def Apart (history : List (Taken Touch Disk)) : Prop :=
  ∀ (i j k l : Nat) (references stores unlinks commits : Taken Touch Disk) (hash : String),
    history[i]? = some references → history[j]? = some stores →
    history[k]? = some unlinks → history[l]? = some commits →
    references.call = unlinks.call → stores.call = commits.call →
    references.label = .references → Stores stores hash →
    unlinks.label = .unlink hash → CommitsHash commits hash → k < j ∨ l < i

variable {sha256 : Bytes → Vector UInt8 32} {history : List (Taken Touch Disk)} {d d' : Disk}
  {phases : Nat → DiskPhase} {hash : String}

theorem getElem?_snoc {α : Type} {l : List α} {a b : α} {k : Nat} :
    (l ++ [a])[k]? = some b ↔ l[k]? = some b ∨ (k = l.length ∧ a = b) := by
  rw [List.getElem?_append]
  split
  · rename_i hlt
    constructor
    · exact Or.inl
    · rintro (h | ⟨rfl, -⟩)
      · exact h
      · omega
  · rename_i hge
    rw [List.getElem?_eq_none (Nat.le_of_not_lt hge)]
    by_cases hk : k = l.length
    · simp [hk]
    · rw [List.getElem?_eq_none (by simp; omega)]
      simp [hk]

theorem Apart.of_snoc {t : Taken Touch Disk} (h : Apart (history ++ [t])) : Apart history :=
  fun i j k l _ _ _ _ hash hi hj hk hl =>
    h i j k l _ _ _ _ hash (getElem?_snoc.mpr (.inl hi)) (getElem?_snoc.mpr (.inl hj))
      (getElem?_snoc.mpr (.inl hk)) (getElem?_snoc.mpr (.inl hl))

/-- **The invariant of a run.** -/
structure Traced (sha256 : Bytes → Vector UInt8 32) (history : List (Taken Touch Disk)) (d : Disk)
    (phases : Nat → DiskPhase) : Prop where
  holding : ∀ i hash, phases i = .holding hash →
    ∃ (j : Nat) (t : Taken Touch Disk), history[j]? = some t ∧ t.call = i ∧ Stores t hash
  pruning : ∀ i referenced, phases i = .pruning referenced → ∃ (k : Nat) (t : Taken Touch Disk),
    history[k]? = some t ∧ t.call = i ∧ t.label = .references ∧ referenced = t.before.db.hashes
  /-- What was committed stays. -/
  grows : ∀ (l : Nat) (t : Taken Touch Disk), history[l]? = some t →
    t.after.db.hashes ⊆ d.db.hashes ∧ ∀ (i : Nat) (u : Taken Touch Disk), history[i]? = some u →
      l < i → t.after.db.hashes ⊆ u.before.db.hashes
  committed : ∀ hash ∈ d.db.hashes, ∃ (j l : Nat) (s t : Taken Touch Disk),
    history[j]? = some s ∧ history[l]? = some t ∧ s.call = t.call ∧ Stores s hash ∧
      CommitsHash t hash
  /-- What was stored stays until it is removed. -/
  kept : ∀ (j : Nat) (s : Taken Touch Disk) (hash : String), history[j]? = some s →
    Stores s hash → hash ∈ d.db.objects ∨ ∃ (k : Nat) (t : Taken Touch Disk),
      history[k]? = some t ∧ j < k ∧ t.label = .unlink hash
  unlinked : ∀ (k : Nat) (t : Taken Touch Disk) (hash : String), history[k]? = some t →
    t.label = .unlink hash → ∃ (i : Nat) (u : Taken Touch Disk), history[i]? = some u ∧
      u.call = t.call ∧ u.label = .references
  staged : ∀ e ∈ d.staged, isHash e.2 = false
  hashed : ∀ (hash : String) (content : Bytes), d.db.objects[hash]? = some content →
    contentHash sha256 content = hash
  referenced : Apart history → ∀ hash ∈ d.db.hashes, hash ∈ d.db.objects

/-! ## One step -/

section Step

variable {phase phase' : DiskPhase} {label : Touch}

theorem hashes_linked (db : Database) (hash : String) (content : Bytes) :
    (db.linked hash content).hashes = db.hashes := by
  rw [Database.hashes, (linked_tables db hash content).2.1]
  rfl

theorem Touches.hashes (h : Touches sha256 phase label d d' phase') :
    d'.db.hashes = d.db.hashes ∨ ∃ hash, phase = .holding hash ∧ d'.db.objects = d.db.objects ∧
      d'.db.hashes = d.db.hashes ++ [hash] := by
  cases h with
  | read | found | staged | references | unlink | missing => exact .inl rfl
  | link content => exact .inl (hashes_linked ..)
  | commit hobjects hhashes => exact .inr ⟨_, rfl, hobjects, hhashes⟩

theorem Touches.objects (h : Touches sha256 phase label d d' phase') (hmem : hash ∈ d.db.objects) :
    hash ∈ d'.db.objects ∨ label = .unlink hash := by
  cases h with
  | read | found | staged | references | missing => exact .inl hmem
  | link content =>
    left
    exact (appends_linked ..).objects hash hmem
  | commit hobjects hhashes => exact .inl (hobjects ▸ hmem)
  | unlink hnot =>
    rename_i removed
    by_cases heq : removed = hash
    · exact .inr (congrArg _ heq)
    · left
      obtain ⟨content, hcontent⟩ := Table.mem_iff_get.mp hmem
      exact Table.mem_iff_get.mpr ⟨content, by rw [Table.get_erase, if_neg heq, hcontent]⟩

/-- What a call has done after the step. -/
theorem Touches.learns (h : Touches sha256 phase label d d' phase') (i : Nat) :
    phase' = phase ∨ (∃ hash, phase' = .holding hash ∧ Stores ⟨i, label, d, d'⟩ hash) ∨
      (phase' = .pruning d.db.hashes ∧ label = .references) := by
  cases h with
  | read | staged | commit | unlink | missing => exact .inl rfl
  | found hmem => exact .inr (.inl ⟨_, rfl, .inl rfl, hmem⟩)
  | link content => exact .inr (.inl ⟨_, rfl, .inr rfl, mem_linked ..⟩)
  | references => exact .inr (.inr ⟨rfl, rfl⟩)

theorem Touches.removes (h : Touches sha256 phase (.unlink hash) d d' phase') :
    ∃ referenced, phase = .pruning referenced ∧ hash ∉ referenced ∧
      d'.db.hashes = d.db.hashes := by
  cases h with
  | read hlabel => exact absurd rfl (hlabel hash)
  | staged _ hlabel => rcases hlabel with h | h <;> cases h
  | unlink hnot | missing hnot => exact ⟨_, rfl, hnot, rfl⟩

theorem Touches.staged_names (h : Touches sha256 phase label d d' phase')
    (hstaged : ∀ e ∈ d.staged, isHash e.2 = false) : ∀ e ∈ d'.staged, isHash e.2 = false := by
  cases h with
  | read | found | link | commit | references | unlink | missing => exact hstaged
  | staged staged hlabel hnames => exact fun e he => (hnames e he).elim (hstaged e) id

theorem Touches.hashed (h : Touches sha256 phase label d d' phase')
    (hhashed : ∀ (hash : String) (content : Bytes), d.db.objects[hash]? = some content →
      contentHash sha256 content = hash) (hash : String) (content : Bytes)
    (hget : d'.db.objects[hash]? = some content) : contentHash sha256 content = hash := by
  cases h with
  | read | found | staged | references | missing => exact hhashed hash content hget
  | commit hobjects hhashes => exact hhashed hash content (hobjects ▸ hget)
  | link published =>
    rcases linked_object d.db (contentHash sha256 published) hash published with
      ⟨old, hold, hnew⟩ | ⟨-, hnew⟩
    · rw [hnew] at hget
      cases hget
      exact hhashed hash content hold
    · rw [hnew] at hget
      split at hget
      · rename_i heq
        cases hget
        exact heq.symm
      · cases hget
  | unlink hnot =>
    rw [Table.get_erase] at hget
    split at hget
    · cases hget
    · exact hhashed hash content hget

/-- **Every step keeps the invariant.** -/
theorem Traced.step {i : Nat} (h : Traced sha256 history d phases)
    (hstep : Touches sha256 (phases i) label d d' phase') :
    Traced sha256 (history ++ [⟨i, label, d, d'⟩]) d' (Function.update phases i phase') := by
  have hlast : (history ++ [⟨i, label, d, d'⟩])[history.length]? = some ⟨i, label, d, d'⟩ :=
    getElem?_snoc.mpr (.inr ⟨rfl, rfl⟩)
  have hold : ∀ {k : Nat} {t : Taken Touch Disk}, history[k]? = some t →
      (history ++ [⟨i, label, d, d'⟩])[k]? = some t := fun h => getElem?_snoc.mpr (.inl h)
  have hlt : ∀ {k : Nat} {t : Taken Touch Disk}, history[k]? = some t → k < history.length :=
    fun h => (List.getElem?_eq_some_iff.mp h).1
  have hgrows : d.db.hashes ⊆ d'.db.hashes := by
    rcases hstep.hashes with heq | ⟨hash, -, -, heq⟩
    · rw [heq]
      exact List.Subset.refl _
    · rw [heq]
      exact List.subset_append_left _ _
  refine ⟨fun j hash hphase => ?_, fun j referenced hphase => ?_, fun l t hl => ?_,
    fun hash hmem => ?_, fun j s hash hj hstores => ?_, fun k t hash hk hlabel => ?_,
    hstep.staged_names h.staged, hstep.hashed h.hashed, fun hapart hash hmem => ?_⟩
  · by_cases hji : j = i
    · subst hji
      rw [Function.update_self] at hphase
      subst hphase
      rcases hstep.learns j with heq | ⟨hash', heq, hstores⟩ | ⟨heq, -⟩
      · obtain ⟨k, t, hk, ht⟩ := h.holding j hash heq.symm
        exact ⟨k, t, hold hk, ht⟩
      · cases heq
        exact ⟨_, _, hlast, rfl, hstores⟩
      · cases heq
    · rw [Function.update_of_ne hji] at hphase
      obtain ⟨k, t, hk, ht⟩ := h.holding j hash hphase
      exact ⟨k, t, hold hk, ht⟩
  · by_cases hji : j = i
    · subst hji
      rw [Function.update_self] at hphase
      subst hphase
      rcases hstep.learns j with heq | ⟨hash', heq, -⟩ | ⟨heq, hlabel⟩
      · obtain ⟨k, t, hk, ht⟩ := h.pruning j referenced heq.symm
        exact ⟨k, t, hold hk, ht⟩
      · cases heq
      · cases heq
        exact ⟨_, _, hlast, rfl, hlabel, rfl⟩
    · rw [Function.update_of_ne hji] at hphase
      obtain ⟨k, t, hk, ht⟩ := h.pruning j referenced hphase
      exact ⟨k, t, hold hk, ht⟩
  · rcases getElem?_snoc.mp hl with hl | ⟨rfl, rfl⟩
    · obtain ⟨hnow, hthen⟩ := h.grows l t hl
      refine ⟨List.Subset.trans hnow hgrows, fun i' u hi' hlt' => ?_⟩
      rcases getElem?_snoc.mp hi' with hi' | ⟨-, rfl⟩
      · exact hthen i' u hi' hlt'
      · exact hnow
    · refine ⟨List.Subset.refl _, fun i' u hi' hlt' => ?_⟩
      have hlength := (List.getElem?_eq_some_iff.mp hi').1
      rw [List.length_append, List.length_singleton] at hlength
      omega
  · rcases hstep.hashes with heq | ⟨hash', hphase, -, heq⟩
    · obtain ⟨j, l, s, t, hj, hl, hrest⟩ := h.committed hash (heq ▸ hmem)
      exact ⟨j, l, s, t, hold hj, hold hl, hrest⟩
    · rw [heq] at hmem
      rcases List.mem_append.mp hmem with hmem | hmem
      · obtain ⟨j, l, s, t, hj, hl, hrest⟩ := h.committed hash hmem
        exact ⟨j, l, s, t, hold hj, hold hl, hrest⟩
      · obtain rfl := List.mem_singleton.mp hmem
        obtain ⟨j, s, hj, hcall, hstores⟩ := h.holding i hash hphase
        exact ⟨j, _, s, _, hold hj, hlast, hcall, hstores, heq⟩
  · rcases getElem?_snoc.mp hj with hj | ⟨rfl, rfl⟩
    · rcases h.kept j s hash hj hstores with hmem | ⟨k, t, hk, hjk, hlabel⟩
      · refine (hstep.objects hmem).imp_right fun hlabel => ⟨_, _, hlast, hlt hj, hlabel⟩
      · exact .inr ⟨k, t, hold hk, hjk, hlabel⟩
    · exact .inl hstores.2
  · rcases getElem?_snoc.mp hk with hk | ⟨rfl, rfl⟩
    · obtain ⟨i', u, hi', hrest⟩ := h.unlinked k t hash hk hlabel
      exact ⟨i', u, hold hi', hrest⟩
    · obtain rfl : label = .unlink hash := hlabel
      obtain ⟨referenced, hphase, -, -⟩ := hstep.removes
      obtain ⟨i', u, hi', hcall, hlabel, -⟩ := h.pruning i referenced hphase
      exact ⟨i', u, hold hi', hcall, hlabel⟩
  · -- a commit finds its object unless a prune that began before it removed it, and an object that
    -- a prune removes has no version unless a commit came after it began: both would overlap
    have hfound : hash ∈ d.db.hashes → hash ∈ d'.db.objects := by
      intro hmem
      rcases hstep.objects (h.referenced hapart.of_snoc hash hmem) with hmem' | rfl
      · exact hmem'
      · obtain ⟨referenced, hphase, hnot, -⟩ := hstep.removes
        obtain ⟨i', u, hi', hcall, hlabel, rfl⟩ := h.pruning i referenced hphase
        obtain ⟨j, l, s, t, hj, hl, hst, hstores, hcommits⟩ := h.committed hash hmem
        rcases hapart i' j _ l u s _ t hash (hold hi') (hold hj) hlast (hold hl) hcall hst hlabel
          hstores rfl hcommits with hbefore | hbefore
        · exact absurd (hlt hj) (Nat.lt_asymm hbefore)
        · refine absurd ((h.grows l t hl).2 i' u hi' hbefore ?_) hnot
          rw [hcommits]
          exact List.mem_append_right _ (List.mem_singleton.mpr rfl)
    rcases hstep.hashes with heq | ⟨hash', hphase, hobjects, heq⟩
    · exact hfound (heq ▸ hmem)
    · rw [heq] at hmem
      rcases List.mem_append.mp hmem with hmem | hmem
      · exact hfound hmem
      · obtain rfl := List.mem_singleton.mp hmem
        obtain ⟨j, s, hj, hcall, hstores⟩ := h.holding i hash hphase
        rcases h.kept j s hash hj hstores with hmem | ⟨k, t, hk, hjk, hlabel⟩
        · exact hobjects ▸ hmem
        · obtain ⟨i', u, hi', hcall', hlabel'⟩ := h.unlinked k t hash hk hlabel
          rcases hapart i' j k _ u s t _ hash (hold hi') (hold hj) (hold hk) hlast hcall' hcall
            hlabel' hstores hlabel heq with hbefore | hbefore
          · exact absurd hjk (Nat.lt_asymm hbefore)
          · exact absurd (hlt hi') (Nat.lt_asymm hbefore)

end Step

/-! ## Runs -/

/-- The calls of the requests on an empty store. -/
def diskPool (sha256 : Bytes → Vector UInt8 32) (workflows : Table Workflow) (steps : List Step)
    (requests : List DiskRequest) : Pool Touch Disk Failure DiskAnswer :=
  .start ⟨Database.fresh workflows steps, []⟩ (requests.map (DiskRequest.call sha256))

/-- Every committed version has its object, with its content. -/
def Preserved (sha256 : Bytes → Vector UInt8 32) (db : Database) : Prop :=
  ∀ v ∈ db.versions, ∃ content, db.objects[v.contentHash]? = some content ∧
    contentHash sha256 content = v.contentHash

/-- With the disk for itself, call `i` gets through and leaves the referenced objects. -/
def Cleans (p : Pool Touch Disk Failure DiskAnswer) (i : Nat) : Prop :=
  ∃ n, (∃ answer, (p.run (Pool.solo i n)).calls[i]? = some (.done (.ok answer))) ∧
    ∀ hash, hash ∈ (p.run (Pool.solo i n)).shared.db.objects ↔ hash ∈ p.shared.db.hashes

theorem traced_start (workflows : Table Workflow) (steps : List Step) :
    Traced sha256 [] ⟨Database.fresh workflows steps, []⟩ fun _ => .idle :=
  ⟨fun _ _ h => (by cases h), fun _ _ h => (by cases h), fun _ _ h => (by cases h),
    fun _ h => absurd h List.not_mem_nil, fun _ _ _ h => (by cases h), fun _ _ _ h => (by cases h),
    fun _ h => absurd h List.not_mem_nil, fun _ _ h => (by simp [Database.fresh] at h),
    fun _ _ h => absurd h List.not_mem_nil⟩

theorem run_traced (sha256 : Bytes → Vector UInt8 32) (workflows : Table Workflow)
    (steps : List Step) (requests : List DiskRequest) (ts : List (Pool.Turn Failure)) :
    ∃ phases, Traced sha256 ((diskPool sha256 workflows steps requests).run ts).history
      ((diskPool sha256 workflows steps requests).run ts).shared phases := by
  have hkeeps : Pool.Keeps (fun _ => Touches sha256) (fun _ _ _ => True) (fun _ => True)
      (Traced sha256) := ⟨fun _ _ => trivial, fun h => fun _ hstep => h.step hstep⟩
  have htracks : Pool.Tracks (fun _ => Touches sha256) (fun _ _ _ => True)
      (fun _ _ r => ∀ a, r = .ok a → True) (Traced sha256)
      (diskPool sha256 workflows steps requests) fun _ => .idle := by
    refine ⟨fun i call hcall => ?_, traced_start workflows steps⟩
    unfold diskPool Pool.start at hcall
    rw [List.getElem?_map] at hcall
    obtain ⟨request, -, rfl⟩ := Option.map_eq_some_iff.mp hcall
    exact touching_request request
  obtain ⟨phases, h⟩ := Pool.rule hkeeps htracks ts fun _ _ => trivial
  exact ⟨phases, h.holds⟩

/-- A disk without staged files is clean. -/
theorem Traced.clean (h : Traced sha256 history d phases) (hstaged : d.staged = []) : Clean d := by
  refine ⟨hstaged, fun name hname => ?_⟩
  obtain ⟨content, hcontent⟩ := Table.mem_iff_get.mp hname
  rw [← h.hashed name content hcontent]
  exact isHash_hex (by simp)

/-- What a prune on its own leaves. -/
theorem mem_without_garbage (h : Clean d) (hreferenced : ∀ hash ∈ d.db.hashes, hash ∈ d.db.objects) :
    hash ∈ (d.without (d.garbage.map Candidate.name)).db.objects ↔ hash ∈ d.db.hashes := by
  have hgarbage : hash ∈ d.garbage.map Candidate.name ↔
      hash ∈ d.db.objects ∧ hash ∉ d.db.hashes := mem_garbage h
  rw [Table.mem_iff_get]
  unfold Disk.without
  simp only [Table.get_eraseAll]
  constructor
  · rintro ⟨content, hcontent⟩
    split at hcontent
    · cases hcontent
    · rename_i hnot
      by_contra hhash
      exact hnot (hgarbage.mpr ⟨Table.mem_iff_get.mpr ⟨content, hcontent⟩, hhash⟩)
  · intro hhash
    rw [if_neg fun hmem => (hgarbage.mp hmem).2 hhash]
    exact Table.mem_iff_get.mp (hreferenced hash hhash)

/-- What stops a prune is a staged file. -/
theorem Traced.staged_of_cleans {p : Pool Touch Disk Failure DiskAnswer}
    (h : Traced sha256 history p.shared phases) {i : Nat}
    (hi : p.calls[i]? = some ((DiskRequest.prune true).call sha256)) (hcleans : Cleans p i) :
    p.shared.staged = [] := by
  obtain ⟨n, ⟨answer, hanswer⟩, -⟩ := hcleans
  by_contra hstaged
  obtain ⟨entry, hentry⟩ := List.exists_mem_of_ne_nil _ hstaged
  obtain ⟨e, he⟩ := prune_refused hentry (h.staged entry hentry) true
  have hanswer := Pool.alone_of_run hi hanswer
  rw [DiskRequest.call, alone_bind_of_error he] at hanswer
  cases congrArg Prod.fst hanswer

/-- **A prune removes only garbage, and gets through, where nothing overlaps it and nothing was left
behind.** In every run in which no commit of a digest overlaps a prune of its object, every committed
version has its object; and from every state that the run reaches, a prune that nobody disturbs
returns and leaves exactly the referenced objects if and only if there is no staged file. -/
theorem prune_keeps_referenced_objects (sha256 : Bytes → Vector UInt8 32)
    (workflows : Table Workflow) (steps : List Step) (requests : List DiskRequest)
    (ts : List (Pool.Turn Failure))
    (hapart : Apart ((diskPool sha256 workflows steps requests).run ts).history) :
    let p := (diskPool sha256 workflows steps requests).run ts
    Preserved sha256 p.shared.db ∧
      ∀ i, p.calls[i]? = some ((DiskRequest.prune true).call sha256) →
        (Cleans p i ↔ p.shared.staged = []) := by
  intro p
  obtain ⟨phases, h⟩ := run_traced sha256 workflows steps requests ts
  have hreferenced := h.referenced hapart
  refine ⟨fun v hv => ?_, fun i hi => ⟨h.staged_of_cleans hi, fun hstaged => ?_⟩⟩
  · obtain ⟨content, hcontent⟩ := Table.mem_iff_get.mp
      (hreferenced v.contentHash (List.mem_map_of_mem hv))
    exact ⟨content, hcontent, h.hashed _ _ hcontent⟩
  · have hclean := h.clean hstaged
    obtain ⟨report, hreport⟩ := alone_prune hclean
    obtain ⟨n, hshared, hdone⟩ := Pool.run_alone hi
    rw [DiskRequest.call, alone_bind_of_ok hreport] at hshared hdone
    refine ⟨n, ⟨_, hdone⟩, fun hash => ?_⟩
    rw [hshared]
    exact mem_without_garbage hclean hreferenced

/-! ## Overlaps and crashes -/

/-- A digest that tells the sample contents apart. -/
def sampleDigest (content : Bytes) : Vector UInt8 32 := Vector.replicate 32 (content.headD 0)

def sampleCreate (id : String) (content : Bytes) : DiskRequest :=
  .create ⟨"owner", content, "notes.txt", "text/plain", .null, none, none, none,
    "2025-01-01T00:00:00.000Z", id, "receipt-" ++ id⟩ id

/-- Turns without a fault. -/
def turnsOf (calls : List Nat) : List (Pool.Turn Failure) := calls.map fun i => ⟨i, none⟩

/-- A run of a few calls on the empty store. -/
def sampleRun (requests : List DiskRequest) (turns : List Nat) :
    Pool Touch Disk Failure DiskAnswer :=
  (diskPool sampleDigest ∅ [] requests).run (turnsOf turns)

/-- Digests that are committed and digests that are removed have nothing in common. -/
theorem apart_of_distinct (h : ∀ u ∈ history, ∀ t ∈ history,
    ∀ hash ∈ t.after.db.hashes.drop t.before.db.hashes.length, u.label ≠ .unlink hash) :
    Apart history := by
  intro i j k l _ _ unlinks commits hash _ _ hk hl _ _ _ _ hunlinks hcommits
  refine absurd hunlinks (h unlinks (List.mem_of_getElem? hk) commits (List.mem_of_getElem? hl)
    hash ?_)
  rw [hcommits, List.drop_left]
  exact List.mem_singleton.mpr rfl

/-- A call commits; another is cut off before its commit; a prune removes what it left. -/
def samplePruned : Pool Touch Disk Failure DiskAnswer :=
  sampleRun [sampleCreate "a" [1], sampleCreate "b" [2], .prune true, .prune true]
    (List.replicate 9 0 ++ List.replicate 7 1 ++ List.replicate 12 2)

theorem pruned_after_crash : Preserved sampleDigest samplePruned.shared.db ∧
    Cleans samplePruned 3 := by
  have hapart : Apart samplePruned.history := apart_of_distinct (by decide +kernel)
  have hcall : samplePruned.calls[3]? = some ((DiskRequest.prune true).call sampleDigest) :=
    Pool.calls_run (by decide)
  have hstaged : samplePruned.shared.staged = [] := by decide +kernel
  unfold samplePruned sampleRun at hapart hcall hstaged ⊢
  have hkeeps := prune_keeps_referenced_objects sampleDigest ∅ [] _ _ hapart
  exact ⟨hkeeps.1, (hkeeps.2 3 hcall).mpr hstaged⟩

/-- **An overlap loses a committed object, and a crash blocks every later prune.** -/
theorem prune_loses_committed_object :
    (∃ v ∈ (sampleRun [sampleCreate "a" [1], .prune true] (List.replicate 6 0 ++
        List.replicate 7 1 ++ List.replicate 3 0)).shared.db.versions,
      (sampleRun [sampleCreate "a" [1], .prune true] (List.replicate 6 0 ++
        List.replicate 7 1 ++ List.replicate 3 0)).shared.db.objects[v.contentHash]? = none) ∧
    ¬Cleans (sampleRun [sampleCreate "a" [1], .prune true] (List.replicate 3 0)) 1 := by
  constructor
  · decide +kernel
  · intro hcleans
    obtain ⟨phases, h⟩ := run_traced sampleDigest ∅ [] [sampleCreate "a" [1], .prune true]
      (turnsOf (List.replicate 3 0))
    have hstaged := h.staged_of_cleans (i := 1) rfl hcleans
    revert hstaged
    decide +kernel

end LumaOS.Artifacts
