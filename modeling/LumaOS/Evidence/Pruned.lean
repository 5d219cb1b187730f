import LumaOS.Evidence.Records

/-!
# Removing unreferenced evidence breaks no check

Every check of `deletion_plan` looks at a file under a name it knows, or at each entry of the
directory for itself. So they still pass in a directory that lost some entries, as long as the
ledger, the journal and the archives these two refer to are what they were (`Pruned`), and new
entries belong to the record of deletions.

* `Pruned.openGate`: the gate opens as it did before.
-/

namespace LumaOS.Evidence

open LumaOS.Base LumaOS.Text LumaOS.Json
open LumaOS.Resources (Ledger)
open LumaOS.Inference (Record Origin Gate digestValid)

/-- The name means the same file in both directories. -/
def Same (d d' : Directory) (name : String) : Prop := d'.files[name]? = d.files[name]?

variable {O : Outside} {d d' : Directory} {name : String} {l : Ledger} {gate : Gate}

/-! ## Checks of one file -/

namespace Same

theorem find (h : Same d d' name) : d'.find name = d.find name := by
  rw [Directory.find, Directory.find, h]

theorem privateRead (h : Same d d' name) (limit : Nat) :
    d'.privateRead limit name = d.privateRead limit name := by
  rw [Directory.privateRead, Directory.privateRead, h.find]

theorem identityOf (h : Same d d' name) (sha256 : Bytes → Vector UInt8 32) (limit : Nat)
    (message : String) :
    d'.identityOf sha256 limit message name = d.identityOf sha256 limit message name := by
  rw [Directory.identityOf, Directory.identityOf, h.find]

theorem identity (h : Same d d' name) : identity O d' name = identity O d name :=
  h.identityOf ..

theorem stageIdentity (h : Same d d' name) : stageIdentity O d' name = stageIdentity O d name :=
  h.identityOf ..

theorem readLedger (h : Same d d' "ledger.json") : readLedger d' = readLedger d := by
  rw [Evidence.readLedger, Evidence.readLedger, h.privateRead]

theorem archived {a : Resources.Archive} (h : Same d d' (archiveName a)) :
    archived O d' a = archived O d a := by
  rw [Evidence.archived, Evidence.archived, h.privateRead]

theorem chainedArchive {a : Inference.Archive} {origin : Origin} {before : List Inference.Archive}
    (h : Same d d' (requestArchiveName a)) :
    chainedArchive O d' origin before a = chainedArchive O d origin before a := by
  rw [Evidence.chainedArchive, Evidence.chainedArchive, h.privateRead]

theorem verifyRetained {suffix : String} (h : Same d d' name) :
    verifyRetained O d' name suffix = verifyRetained O d name suffix := by
  rw [Evidence.verifyRetained, Evidence.verifyRetained, h.identity]

/-- The archive that an entry is read as has the entry's name. -/
theorem verifyEntry (h : Same d d' name) (hok : verifyEntry O l d name = .ok ()) :
    Evidence.verifyEntry O l d' name = .ok () := by
  unfold Evidence.verifyEntry at hok ⊢
  rw [h.privateRead]
  split at hok
  · rw [h.verifyRetained]
    exact hok
  · split at hok
    · rename_i hstage
      rw [if_pos hstage]
      exact hok
    · rename_i hstage
      rw [if_neg hstage]
      split at hok
      · simp only [bind_eq_ok, refuseIf_eq_ok, Bool.or_eq_false_iff, bne_eq_false_iff_eq] at hok ⊢
        obtain ⟨a, ha, -, ⟨hname, hhash⟩, hrest⟩ := hok
        refine ⟨a, ha, (), ⟨hname, hhash⟩, ?_⟩
        rw [Same.archived (hname ▸ h)]
        exact hrest
      · exact hok

theorem inventoryEntry (h : Same d d' name) :
    inventoryEntry O d' name = inventoryEntry O d name := by
  unfold Evidence.inventoryEntry
  rw [h.privateRead, h.stageIdentity]

end Same

/-! ## What the checks rest on -/

/-- **Some evidence is gone**, and what the ledger and the journal refer to is not. -/
structure Pruned (l : Ledger) (gate : Gate) (d d' : Directory) : Prop where
  identity : d'.identity = d.identity
  ledger : Same d d' "ledger.json"
  requests : Same d d' "requests.json"
  archives : ∀ a ∈ l.archives, Same d d' (archiveName a)
  requestArchives : ∀ a ∈ gate.retention.archives, Same d d' (requestArchiveName a)
  kept : ∀ name, isRecord name = false → name ∈ d'.files → Same d d' name
  size : d'.files.size ≤ maxEntries

/-- Two classes of names that differ on the way have no name in common. -/
theorem not_isRecord_of_startsWith {start : String} (h : startsWith start name = true)
    (ha : startsWith start ".retention-" = false) (hb : startsWith ".retention-" start = false) :
    isRecord name = false :=
  not_startsWith h ha hb

theorem not_isRecord_of_isArchive (h : isArchive name = true) : isRecord name = false := by
  simp only [isArchive, Bool.or_eq_true] at h
  rcases h with (h | h) | h
  · exact not_isRecord_of_startsWith h (by decide) (by decide)
  · exact not_isRecord_of_startsWith h (by decide) (by decide)
  · exact not_isRecord_of_startsWith h (by decide) (by decide)

theorem not_isRecord_of_isRequests (h : isRequests name = true) : isRecord name = false := by
  simp only [isRequests, Bool.or_eq_true] at h
  rcases h with (h | h) | h
  · exact not_isRecord_of_startsWith h (by decide) (by decide)
  · exact not_isRecord_of_startsWith h (by decide) (by decide)
  · exact not_isRecord_of_startsWith h (by decide) (by decide)

theorem stripPrefix_of_not {start : String} (h : startsWith start name = false) :
    stripPrefix start name = none := if_neg (by rw [startsWith] at h; simp [h])

/-- A record is neither archive nor request evidence. -/
theorem verifyEntry_of_isRecord (h : isRecord name = true) : verifyEntry O l d name = .ok () := by
  have hnot : ∀ {start : String}, startsWith ".retention-" start = false →
      startsWith start ".retention-" = false → startsWith start name = false :=
    fun ha hb => not_startsWith h ha hb
  unfold verifyEntry
  rw [stripPrefix_of_not (hnot (by decide) (by decide)), @hnot ".archive-stage-"
    (by decide) (by decide), stripPrefix_of_not (hnot (by decide) (by decide))]
  rfl

theorem inventoryEntry_of_isRecord (h : isRecord name = true) :
    inventoryEntry O d name = .ok () := by
  have hnot : ∀ {start : String}, startsWith ".retention-" start = false →
      startsWith start ".retention-" = false → startsWith start name = false :=
    fun ha hb => not_startsWith h ha hb
  unfold inventoryEntry
  rw [stripPrefix_of_not (hnot (by decide) (by decide)), @hnot ".requests-stage-"
    (by decide) (by decide), stripPrefix_of_not (hnot (by decide) (by decide))]
  rfl

/-- Fewer names, fewer of a class. -/
theorem countP_le {c : String → Bool} (h : ∀ name, c name = true → name ∈ d'.files →
    name ∈ d.files) :
    d'.files.toList.countP (fun e => c e.1) ≤ d.files.toList.countP (fun e => c e.1) := by
  have hcount : ∀ t : Table File, t.toList.countP (fun e => c e.1) =
      ((t.toList.map Prod.fst).filter c).length := fun t => by
    rw [← List.countP_eq_length_filter, List.countP_map]
    rfl
  rw [hcount, hcount]
  refine (List.subperm_of_subset (Table.nodup_fst_toList.filter _) fun name hname => ?_).length_le
  have hmem : ∀ {t : Table File}, name ∈ t.toList.map Prod.fst ↔ name ∈ t := fun {t} => by
    rw [List.mem_map, Table.mem_iff_get]
    constructor
    · rintro ⟨e, he, rfl⟩
      exact ⟨e.2, Table.mem_toList_iff_get.mp he⟩
    · rintro ⟨f, hf⟩
      exact ⟨(name, f), Table.mem_toList_iff_get.mpr hf, rfl⟩
  rw [List.mem_filter, hmem] at hname ⊢
  exact ⟨h name hname.2 hname.1, hname.2⟩

theorem Pruned.mem (h : Pruned l gate d d') (hname : isRecord name = false)
    (hmem : name ∈ d'.files) : name ∈ d.files := by
  obtain ⟨f, hf⟩ := Table.mem_iff_get.mp hmem
  exact Table.mem_iff_get.mpr ⟨f, (h.kept name hname hmem).symm.trans hf⟩

/-! ## The archives -/

theorem verifyStep_eq_ok {n k : Nat} {e : String × File} :
    verifyStep O l d n e = .ok k ↔ verifyEntry O l d e.1 = .ok () ∧
      k = n + (if isArchive e.1 then 1 else 0) ∧ k ≤ maxFiles := by
  simp only [verifyStep, bind_eq_ok, pure_eq_ok, refuseIf_eq_ok, decide_eq_false_iff_not, not_lt]
  constructor
  · rintro ⟨_, hbound, _, hentry, rfl⟩
    exact ⟨hentry, by split <;> rfl, hbound⟩
  · rintro ⟨hentry, rfl, hbound⟩
    have hcount : (if isArchive e.1 then n + 1 else n) = n + (if isArchive e.1 then 1 else 0) := by
      split <;> rfl
    exact ⟨(), hcount ▸ hbound, (), hentry, hcount⟩

/-- **The loop of `verify_archives`.** -/
theorem verifyLoop_eq_ok {es : List (String × File)} {k : Nat} :
    es.foldlM (verifyStep O l d) 0 = .ok k ↔ (∀ e ∈ es, verifyEntry O l d e.1 = .ok ()) ∧
      k = 0 + es.countP (fun e => isArchive e.1) ∧ k ≤ maxFiles :=
  foldlM_counted (P := fun e : String × File => verifyEntry O l d e.1 = .ok ())
    (c := fun e => isArchive e.1) (fun _ _ _ _ => verifyStep_eq_ok) (Nat.zero_le _)

theorem verifyChain_congr : ∀ {refs before : List Resources.Archive},
    (∀ a ∈ refs, Same d d' (archiveName a)) → verifyChain O d' before refs = verifyChain O d before refs
  | [], _, _ => rfl
  | a :: refs, before, h => by
    obtain ⟨ha, hrefs⟩ := List.forall_mem_cons.mp h
    rw [verifyChain, verifyChain, ha.archived]
    refine congrArg _ (funext fun archive => congrArg _ (funext fun _ => ?_))
    exact verifyChain_congr hrefs

theorem Pruned.verifyArchives (h : Pruned l gate d d') (hok : verifyArchives O l d = .ok ()) :
    verifyArchives O l d' = .ok () := by
  simp only [Evidence.verifyArchives, bind_eq_ok, scan_eq_ok] at hok ⊢
  obtain ⟨n, ⟨hsize, hloop⟩, hchain⟩ := hok
  obtain ⟨hall, hk, hcount⟩ := verifyLoop_eq_ok.mp hloop
  have hle := (@countP_le d d' isArchive) fun name hc hmem =>
    h.mem (not_isRecord_of_isArchive hc) hmem
  refine ⟨d'.files.toList.countP fun e => isArchive e.1, ⟨h.size, ?_⟩, ?_⟩
  · refine verifyLoop_eq_ok.mpr ⟨fun e he => ?_, (Nat.zero_add _).symm, by omega⟩
    have hget := Table.mem_toList_iff_get.mp he
    by_cases hrecord : isRecord e.1 = true
    · exact verifyEntry_of_isRecord hrecord
    · rw [Bool.not_eq_true] at hrecord
      have hsame := h.kept e.1 hrecord (Table.mem_iff_get.mpr ⟨_, hget⟩)
      exact hsame.verifyEntry (hall e (Table.mem_toList_iff_get.mpr (hsame.symm.trans hget)))
  · rw [verifyChain_congr h.archives]
    exact hchain

/-! ## The journal -/

theorem inventoryStep_eq_ok {n k : Nat} {e : String × File} :
    inventoryStep O d n e = .ok k ↔ inventoryEntry O d e.1 = .ok () ∧
      k = n + (if isRequests e.1 then 1 else 0) ∧ k ≤ maxFiles := by
  simp only [inventoryStep, bind_eq_ok, pure_eq_ok, refuseIf_eq_ok, decide_eq_false_iff_not, not_lt]
  constructor
  · rintro ⟨_, hentry, _, hbound, rfl⟩
    exact ⟨hentry, by split <;> rfl, hbound⟩
  · rintro ⟨hentry, rfl, hbound⟩
    have hcount : (if isRequests e.1 then n + 1 else n) =
        n + (if isRequests e.1 then 1 else 0) := by
      split <;> rfl
    exact ⟨(), hentry, (), hcount ▸ hbound, hcount⟩

/-- **The loop of `inventory`.** -/
theorem inventoryLoop_eq_ok {es : List (String × File)} {k : Nat} :
    es.foldlM (inventoryStep O d) 0 = .ok k ↔ (∀ e ∈ es, inventoryEntry O d e.1 = .ok ()) ∧
      k = 0 + es.countP (fun e => isRequests e.1) ∧ k ≤ maxFiles :=
  foldlM_counted (P := fun e : String × File => inventoryEntry O d e.1 = .ok ())
    (c := fun e => isRequests e.1) (fun _ _ _ _ => inventoryStep_eq_ok) (Nat.zero_le _)

theorem requestChain_congr {origin : Origin} : ∀ {refs before : List Inference.Archive}
    {retired : Names}, (∀ a ∈ refs, Same d d' (requestArchiveName a)) →
      requestChain O d' origin before retired refs = requestChain O d origin before retired refs
  | [], _, _, _ => rfl
  | a :: refs, before, retired, h => by
    obtain ⟨ha, hrefs⟩ := List.forall_mem_cons.mp h
    rw [requestChain, requestChain, ha.chainedArchive]
    refine congrArg _ (funext fun s => congrArg _ (funext fun _ => ?_))
    exact requestChain_congr hrefs

theorem Pruned.inventory (h : Pruned l gate d d') {retired : Names}
    (hok : inventory O d gate.retention.archives gate.retention.origin = .ok retired) :
    inventory O d' gate.retention.archives gate.retention.origin = .ok retired := by
  simp only [Evidence.inventory, bind_eq_ok, scan_eq_ok] at hok ⊢
  obtain ⟨n, ⟨hsize, hloop⟩, hchain⟩ := hok
  obtain ⟨hall, hk, hcount⟩ := inventoryLoop_eq_ok.mp hloop
  have hle := (@countP_le d d' isRequests) fun name hc hmem =>
    h.mem (not_isRecord_of_isRequests hc) hmem
  refine ⟨d'.files.toList.countP fun e => isRequests e.1, ⟨h.size, ?_⟩, ?_⟩
  · refine inventoryLoop_eq_ok.mpr ⟨fun e he => ?_, (Nat.zero_add _).symm, by omega⟩
    have hget := Table.mem_toList_iff_get.mp he
    by_cases hrecord : isRecord e.1 = true
    · exact inventoryEntry_of_isRecord hrecord
    · rw [Bool.not_eq_true] at hrecord
      have hsame := h.kept e.1 hrecord (Table.mem_iff_get.mpr ⟨_, hget⟩)
      rw [hsame.inventoryEntry]
      exact hall e (Table.mem_toList_iff_get.mpr (hsame.symm.trans hget))
  · rw [requestChain_congr h.requestArchives]
    exact hchain

theorem Pruned.verifyLoaded (h : Pruned l gate d d') {published : String} :
    verifyLoaded O d' published = verifyLoaded O d published := by
  rw [Evidence.verifyLoaded, Evidence.verifyLoaded, h.ledger.readLedger, h.requests.stageIdentity]

theorem Pruned.openGate (h : Pruned l gate d d') (hok : openGate O d = .ok gate) :
    openGate O d' = .ok gate := by
  simp only [Evidence.openGate, bind_eq_ok, pure_eq_ok] at hok ⊢
  obtain ⟨l', hl', bytes, hbytes, s, hs, retired, hretired, u, hu, i, hi, rfl⟩ := hok
  exact ⟨l', h.ledger.readLedger.trans hl', bytes, (h.requests.privateRead _).trans hbytes, s, hs,
    retired, h.inventory hretired, u, hu, i, h.verifyLoaded.trans hi, rfl⟩

theorem Pruned.retentionIdle (h : Pruned l gate d d') (hgate : Evidence.openGate O d = .ok gate)
    (hok : retentionIdle O d = .ok ()) : retentionIdle O d' = .ok () := by
  simp only [Evidence.retentionIdle, bind_eq_ok] at hok ⊢
  obtain ⟨g, hg, u, hu, published, hp, i, hi, hend⟩ := hok
  obtain rfl := Except.ok.inj (hgate.symm.trans hg)
  exact ⟨gate, h.openGate hgate, u, hu, published, hp, i, h.verifyLoaded.trans hi, hend⟩

theorem Pruned.retentionEvidence (h : Pruned l gate d d') (hgate : Evidence.openGate O d = .ok gate)
    (hname : Same d d' name) (hok : retentionEvidence O d name = .ok ()) :
    retentionEvidence O d' name = .ok () := by
  simp only [Evidence.retentionEvidence, bind_eq_ok] at hok ⊢
  obtain ⟨g, hg, u, hu, published, hp, before, hb, target, ht, v, hv, again, ha, hend⟩ := hok
  obtain rfl := Except.ok.inj (hgate.symm.trans hg)
  exact ⟨gate, h.openGate hgate, u, hu, published, hp, before, h.verifyLoaded.trans hb, target,
    hname.stageIdentity.trans ht, v, hv, again, h.verifyLoaded.trans ha, hend⟩

end LumaOS.Evidence
