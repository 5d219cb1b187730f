import LumaOS.Evidence.Runs
import LumaOS.Resources.SessionRuns

/-!
# A deletion that blocks all others

* `blocked`: with an intent that cannot be read back in the directory, no outcome is listed and no
  call changes anything.
* `deletion_blocks_itself`: a call that is cut off right behind the creation of its intent leaves
  such a directory.
-/

namespace LumaOS.Evidence

open LumaOS.Base LumaOS.Text LumaOS.Json
open LumaOS.Resources (Ledger)
open LumaOS.Inference (Gate)
open Mut (exec)

variable {O : Outside} {d : Directory} {plan : DeletionPlan} {names : List String}
  {reviewed : String} {α β : Type}

/-! ## The cut -/

theorem leaves_bind_observe {r : Directory → Result α} {a : α} {f : α → Calls Directory Seen β}
    {seen : Seen} {rest : List (Reply Seen)} (h : r d = .ok a) :
    (observe r >>= f).leaves d (.done seen :: rest) = (f a).leaves d rest := by
  have hcall : exec (observe r) ⟨d, .done seen :: rest⟩ = (.ok a, ⟨d, rest⟩) := by
    rw [observe, exec_call_done, Mut.exec_bind_get]
    exact Prod.ext h rfl
  rw [Calls.leaves, Mut.exec_bind_of_ok hcall]
  rfl

theorem leaves_bind_probe {f : Unit → Calls Directory Seen β} {seen : Seen}
    {rest : List (Reply Seen)} :
    (probe >>= f).leaves d (.done seen :: rest) = (f ()).leaves d rest := by
  have hcall : exec probe ⟨d, .done seen :: rest⟩ = (.ok (), ⟨d, rest⟩) := rfl
  rw [Calls.leaves, Mut.exec_bind_of_ok hcall]
  rfl

theorem leaves_bind_call_nil {g : Seen → Mut Directory α} {f : α → Calls Directory Seen β} :
    (call g >>= f).leaves d [] = d := by
  have hcall : ∃ e, exec (call g) ⟨d, []⟩ = (.error e, ⟨d, []⟩) := ⟨_, rfl⟩
  obtain ⟨e, he⟩ := hcall
  rw [Calls.leaves, Mut.exec_bind_of_error he]

theorem leaves_bind_create {name : String} {f : Unit → Calls Directory Seen β} {seen : Seen}
    {rest : List (Reply Seen)} (h : d.files[name]? = none) :
    (create name >>= f).leaves d (.done seen :: rest) =
      (f ()).leaves (d.put name (created seen)) rest := by
  have hcontains : d.files.contains name = false := by
    rw [← Bool.not_eq_true, ← Std.ExtTreeMap.mem_iff_contains]
    exact Table.not_mem_iff_get.mpr h
  have hcall : exec (create name) ⟨d, .done seen :: rest⟩ =
      (.ok (), ⟨d.put name (created seen), rest⟩) := by
    rw [create, exec_call_done, Mut.exec_bind_get, hcontains]
    rfl
  rw [Calls.leaves, Mut.exec_bind_of_ok hcall]
  rfl

/-- **The call that is cut off behind the creation of its intent.** -/
theorem Proceeds.cut (h : Proceeds O d names reviewed plan) (seen : Seen) :
    (deleteRetainedChecked O names reviewed).leaves d (List.replicate 7 (.done seen)) =
      d.put (intentName reviewed) (created seen) := by
  obtain ⟨l, gate, -, hd⟩ := deletionPlan_eq_ok h.planned
  obtain ⟨t, ht, hfew⟩ := h.outcomes
  have hreview : refuseIf (plan.review O != reviewed) "resource retention review changed" = .ok () :=
    refuseIf_eq_ok.mpr (bne_eq_false_iff_eq.mpr h.review)
  have hagain : refuseIf (plan != plan) "resource retention target drifted after authorization" =
      .ok () := refuseIf_eq_ok.mpr (bne_eq_false_iff_eq.mpr rfl)
  have hdirectory : refuseIf (d.identity != plan.directory) "resource retention directory changed" =
      .ok () := refuseIf_eq_ok.mpr (bne_eq_false_iff_eq.mpr hd.directory.symm)
  have hbound : refuseIf (t.size ≥ maxOutcomes)
      "resource retention outcome inventory exhausted; no automatic audit eviction" = .ok () :=
    refuseIf_eq_ok.mpr (decide_eq_false (not_le.mpr hfew))
  have hroom : refuseIf (d.files.size ≥ maxEntries - 2)
      "resource retention audit inventory exhausted; preserve prior outcomes" = .ok () :=
    refuseIf_eq_ok.mpr (decide_eq_false (not_le.mpr h.room))
  unfold deleteRetainedChecked
  rw [show List.replicate 7 (Reply.done seen) = [.done seen, .done seen, .done seen, .done seen,
    .done seen, .done seen, .done seen] from rfl, leaves_bind_observe h.planned,
    leaves_bind_lift hreview, leaves_bind_probe, leaves_bind_observe h.planned,
    leaves_bind_lift hagain, leaves_bind_observe hdirectory, leaves_bind_observe ht,
    leaves_bind_lift hbound, leaves_bind_observe (a := d.files.size) rfl, leaves_bind_lift hroom]
  simp only [publishEvidence, writeAll, write, bind_assoc]
  rw [leaves_bind_create h.fresh, leaves_bind_call_nil]

/-! ## What follows -/

theorem retentionOutcomes_of_unread (hmem : intentName reviewed ∈ d.files)
    (hunread : ∀ p, readIntent O d reviewed ≠ .ok p) (t : Table Outcome) :
    retentionOutcomes O d ≠ .ok t := fun ht => by
  obtain ⟨-, -, -, -, hreported, hlisted⟩ := retentionOutcomes_ok ht
  obtain ⟨o, ho⟩ := Table.mem_iff_get.mp ((hlisted reviewed).mpr hmem)
  obtain ⟨-, p, hp, -⟩ := hreported reviewed o ho
  exact hunread p hp

/-- A call changes nothing where no outcome can be listed. -/
theorem Left.untouched_of_outcomes {replies : List (Reply Seen)} {d' : Directory}
    (h : Left O d names reviewed replies d') (hno : ∀ t, retentionOutcomes O d ≠ .ok t) :
    d' = d := by
  have hnot : ∀ plan, ¬ Proceeds O d names reviewed plan := fun plan hp => by
    obtain ⟨t, ht, -⟩ := hp.outcomes
    exact hno t ht
  cases h with
  | untouched h => exact h
  | removed plan gone g part after written start intent receipt stop
  | receipted plan g f part after intent intentFile written start receipt absent stop =>
    exact absurd after.proceeds (hnot plan)

/-- **One unreadable intent ends all deletion.** -/
theorem blocked (hmem : intentName reviewed ∈ d.files)
    (hunread : ∀ p, readIntent O d reviewed ≠ .ok p) :
    ∀ steps, deletionRun O d steps = d
  | [] => rfl
  | s :: steps => by
    have hsame : s.leaves O d = d :=
      delete_left.untouched_of_outcomes (retentionOutcomes_of_unread hmem hunread)
    rw [show deletionRun O d (s :: steps) = deletionRun O (s.leaves O d) steps from rfl, hsame]
    exact blocked hmem hunread steps

/-- An empty intent is not read back. -/
theorem readIntent_created (seen : Seen) (p : DeletionPlan) :
    readIntent O (d.put (intentName reviewed) (created seen)) reviewed ≠ .ok p := fun h => by
  obtain ⟨-, -, hfits, f, hf, -, hbytes⟩ := readIntent_eq_ok.mp h
  rw [get_put, if_pos rfl] at hf
  obtain rfl := Option.some.inj hf
  have hread := DeletionPlan.decodeAs_bytes hfits
  rw [← hbytes] at hread
  cases hread

/-- **Any call that gets to its intent can do this.** -/
theorem Proceeds.blocks (h : Proceeds O d names reviewed plan) (seen : Seen) :
    let w := (deleteRetainedChecked O names reviewed).leaves d (List.replicate 7 (.done seen))
    (∀ t, retentionOutcomes O w ≠ .ok t) ∧ ∀ steps, deletionRun O w steps = w := by
  intro w
  have hw : w = d.put (intentName reviewed) (created seen) := h.cut seen
  have hmem : intentName reviewed ∈ w.files := by
    rw [hw]
    exact Table.mem_iff_get.mpr ⟨created seen, by rw [get_put, if_pos rfl]⟩
  have hunread : ∀ p, readIntent O w reviewed ≠ .ok p := by
    rw [hw]
    exact readIntent_created seen
  exact ⟨retentionOutcomes_of_unread hmem hunread, blocked hmem hunread⟩

/-! ## A store -/

/-- A ledger after its manager started; it has no lease. -/
def idleLedger : Ledger :=
  { Resources.sessionLedger 0 with leases := [] }

def freshJournal : Snapshot where
  schemaVersion := 1
  origin := .freshResourceState
  archives := []
  records := []

/-- Every digest is the same here, and the journal is read from its own bytes. -/
def sampleOutside : Outside where
  sha256 := fun _ => Vector.replicate 32 1
  journal := fun bytes => if bytes = toVec freshJournal.toJson then some freshJournal else none
  malformed := fun _ => "EOF while parsing a value at line 1 column 0"

def sampleFile (bytes : Bytes) : File where
  stat :=
    { isFile := true, uid := 0, mode := 0o600, nlink := 1, device := 1, inode := 2, modified := 3
      modifiedNs := 4, changed := 5, changedNs := 6 }
  bytes := bytes

/-- The preparation of an archive that was never published. -/
def sampleStage : String := ".archive-stage-archive-1-" ++ repeatText "a" 64 ++ ".json"

def sampleDirectory : Directory where
  identity := (1, 1)
  files := ((Table.single "ledger.json" (sampleFile (toVec idleLedger.toJson))).insert
    "requests.json" (sampleFile (toVec freshJournal.toJson))).insert sampleStage (sampleFile [])

theorem get_sampleDirectory {a : String} : sampleDirectory.files[a]? =
    if sampleStage = a then some (sampleFile [])
    else if "requests.json" = a then some (sampleFile (toVec freshJournal.toJson))
    else if "ledger.json" = a then some (sampleFile (toVec idleLedger.toJson)) else none := by
  rw [sampleDirectory, Table.get_insert, Table.get_insert, Table.get_single]

theorem ledger_sampleDirectory : sampleDirectory.files["ledger.json"]? =
    some (sampleFile (toVec idleLedger.toJson)) := by
  rw [get_sampleDirectory, if_neg (by decide), if_neg (by decide), if_pos rfl]

theorem requests_sampleDirectory : sampleDirectory.files["requests.json"]? =
    some (sampleFile (toVec freshJournal.toJson)) := by
  rw [get_sampleDirectory, if_neg (by decide), if_pos rfl]

theorem stage_sampleDirectory : sampleDirectory.files[sampleStage]? = some (sampleFile []) := by
  rw [get_sampleDirectory, if_pos rfl]

theorem size_sampleDirectory : sampleDirectory.files.size ≤ 3 := by
  have hempty : (∅ : Table File).size = 0 := Std.ExtTreeMap.size_empty
  have h₁ := Std.ExtTreeMap.size_insert_le (t := (∅ : Table File)) (k := "ledger.json")
    (v := sampleFile (toVec idleLedger.toJson))
  have h₂ := Std.ExtTreeMap.size_insert_le
    (t := Table.single "ledger.json" (sampleFile (toVec idleLedger.toJson))) (k := "requests.json")
    (v := sampleFile (toVec freshJournal.toJson))
  have h₃ := Std.ExtTreeMap.size_insert_le
    (t := (Table.single "ledger.json" (sampleFile (toVec idleLedger.toJson))).insert
      "requests.json" (sampleFile (toVec freshJournal.toJson))) (k := sampleStage)
    (v := sampleFile [])
  change _ ≤ _ at h₃
  have hsize : sampleDirectory.files.size ≤ _ := h₃
  have hsingle : (Table.single "ledger.json" (sampleFile (toVec idleLedger.toJson))).size ≤ _ := h₁
  omega

theorem entry_sampleDirectory {e : String × File} (h : e ∈ sampleDirectory.files.toList) :
    e.1 = sampleStage ∨ e.1 = "requests.json" ∨ e.1 = "ledger.json" := by
  have hget := Table.mem_toList_iff_get.mp h
  rw [get_sampleDirectory] at hget
  split at hget
  · exact .inl (Eq.symm ‹_›)
  · split at hget
    · exact .inr (.inl (Eq.symm ‹_›))
    · split at hget
      · exact .inr (.inr (Eq.symm ‹_›))
      · cases hget

theorem fits_idleLedger : idleLedger.Fits :=
  have h := @Resources.fits_sessionLedger 0 (by decide)
  ⟨h.schemaVersion, h.generation, h.domains, h.archives, fun _ hx => absurd hx List.not_mem_nil⟩

theorem length_idleLedger : (toVec idleLedger.toJson).length ≤ 8192 :=
  (length_toVec_le _).trans (by decide)

theorem length_freshJournal : (toVec freshJournal.toJson).length ≤ 8192 :=
  (length_toVec_le _).trans (by decide)

theorem isPrivate_sampleFile {bytes : Bytes} {limit : Nat} (h : bytes.length ≤ limit) :
    (sampleFile bytes).isPrivate limit = true := by
  simp only [File.isPrivate, sampleFile, Bool.and_eq_true]
  exact ⟨by decide, decide_eq_true h⟩

theorem exact_sampleFile {bytes : Bytes} {limit : Nat} (h : bytes.length ≤ limit) :
    (sampleFile bytes).exact limit = true := by
  simp only [File.exact, sampleFile, Bool.and_eq_true]
  exact ⟨by decide, decide_eq_true h⟩

theorem readLedger_sample : readLedger sampleDirectory = .ok idleLedger := by
  simp only [readLedger, bind_eq_ok, okOr_eq_ok, pure_eq_ok, refuseIf_eq_ok, bne_eq_false_iff_eq,
    privateRead_eq_ok]
  have hlength : (toVec idleLedger.toJson).length ≤ maxBytes := length_idleLedger.trans (by decide)
  exact ⟨_, ⟨_, ledger_sampleDirectory, isPrivate_sampleFile hlength, rfl⟩, idleLedger,
    Ledger.decodeAs_toVec fits_idleLedger, (), rfl, (), by decide, rfl⟩

theorem verifyEntry_stage {ledger : Ledger} {name : String} {bytes : Bytes}
    (hretained : stripPrefix ".archive-retained-" name = none)
    (hstage : startsWith ".archive-stage-" name = true)
    (hread : d.privateRead maxBytes name = .ok bytes) : verifyEntry O ledger d name = .ok () := by
  simp only [verifyEntry, hretained, hstage, if_true, hread, bind, Except.bind, pure, Except.pure]

theorem verifyEntry_other {ledger : Ledger} {name : String}
    (hretained : stripPrefix ".archive-retained-" name = none)
    (hstage : startsWith ".archive-stage-" name = false)
    (harchive : stripPrefix "archive-" name = none) : verifyEntry O ledger d name = .ok () := by
  simp only [verifyEntry, hretained, hstage, harchive, Bool.false_eq_true, if_false, pure,
    Except.pure]

theorem inventoryEntry_other {name : String}
    (hretained : stripPrefix ".requests-retained-" name = none)
    (hstage : startsWith ".requests-stage-" name = false)
    (harchive : stripPrefix "requests-archive-" name = none) : inventoryEntry O d name = .ok () := by
  simp only [inventoryEntry, hretained, hstage, harchive, Bool.false_eq_true, if_false, pure,
    Except.pure]

theorem accept_stage {ledger : Ledger} {name : String} {archive : Resources.Archive}
    (hretained : stripPrefix ".archive-retained-" name = none)
    (hstage : startsWith ".archive-stage-" name = true) (hname : preparation name = .ok archive)
    (hpast : archive.throughGeneration ≤ ledger.generation) : accept O d ledger name = .ok () := by
  have hfuture : decide (archive.throughGeneration > ledger.generation) = false :=
    decide_eq_false (Nat.not_lt.mpr hpast)
  simp only [accept, hretained, hstage, if_true, hname, hfuture, bind, Except.bind, refuseIf,
    Bool.false_eq_true, if_false]

theorem verifyEntry_sample :
    verifyEntry sampleOutside idleLedger sampleDirectory sampleStage = .ok () := by
  have hread : sampleDirectory.privateRead maxBytes sampleStage = .ok [] :=
    privateRead_eq_ok.mpr ⟨_, stage_sampleDirectory, isPrivate_sampleFile (Nat.zero_le _), rfl⟩
  exact verifyEntry_stage (by decide) (by decide) hread

theorem verifyArchives_sample :
    verifyArchives sampleOutside idleLedger sampleDirectory = .ok () := by
  simp only [verifyArchives, bind_eq_ok, scan_eq_ok]
  have hsize := size_sampleDirectory
  refine ⟨_, ⟨hsize.trans (by decide), verifyLoop_eq_ok.mpr ⟨fun e he => ?_, rfl, ?_⟩⟩, rfl⟩
  · rcases entry_sampleDirectory he with h | h | h
    · exact h ▸ verifyEntry_sample
    · exact h ▸ verifyEntry_other (by decide) (by decide) (by decide)
    · exact h ▸ verifyEntry_other (by decide) (by decide) (by decide)
  · have hcount := List.countP_le_length (p := fun e : String × File => isArchive e.1)
      (l := sampleDirectory.files.toList)
    rw [Std.ExtTreeMap.length_toList] at hcount
    have hbound : (3 : Nat) ≤ maxFiles := by decide
    omega

theorem inventory_sample :
    inventory sampleOutside sampleDirectory [] .freshResourceState = .ok ∅ := by
  simp only [inventory, bind_eq_ok, scan_eq_ok]
  have hsize := size_sampleDirectory
  refine ⟨_, ⟨hsize.trans (by decide), inventoryLoop_eq_ok.mpr ⟨fun e he => ?_, rfl, ?_⟩⟩, rfl⟩
  · rcases entry_sampleDirectory he with h | h | h
    · exact h ▸ inventoryEntry_other (by decide) (by decide) (by decide)
    · exact h ▸ inventoryEntry_other (by decide) (by decide) (by decide)
    · exact h ▸ inventoryEntry_other (by decide) (by decide) (by decide)
  · have hcount := List.countP_le_length (p := fun e : String × File => isRequests e.1)
      (l := sampleDirectory.files.toList)
    rw [Std.ExtTreeMap.length_toList] at hcount
    have hbound : (3 : Nat) ≤ maxFiles := by decide
    omega

/-- The digest that every file has here. -/
def sampleDigest : String := hex (Vector.replicate 32 1).toList

/-- The gate of the store. -/
def sampleGate : Gate where
  records := []
  retention :=
    { origin := .freshResourceState, archives := [], retired := ∅, published := some sampleDigest
      poisoned := false, authorityLost := false }

theorem verifyLoaded_sample :
    ∃ i, verifyLoaded sampleOutside sampleDirectory sampleDigest = .ok i := by
  simp only [verifyLoaded, bind_eq_ok, pure_eq_ok, refuseIf_eq_ok, bne_eq_false_iff_eq, stageIdentity,
    identityOf_eq_ok]
  have hlength : (toVec freshJournal.toJson).length ≤ Inference.maxBytes :=
    length_freshJournal.trans (by decide)
  exact ⟨_, _, readLedger_sample, _, ⟨_, requests_sampleDirectory, exact_sampleFile hlength, rfl⟩, (),
    rfl, rfl⟩

theorem decodeJournal_sample :
    decodeJournal sampleOutside (toVec freshJournal.toJson) = .ok freshJournal := by
  simp only [decodeJournal, bind_eq_ok, pure_eq_ok, okOr_eq_ok, refuseIf_eq_ok, Bool.or_eq_false_iff,
    bne_eq_false_iff_eq]
  have hread : sampleOutside.journal (toVec freshJournal.toJson) = some freshJournal := by
    simp only [sampleOutside, if_true]
  exact ⟨freshJournal, hread, (), ⟨⟨rfl, rfl⟩, rfl⟩, (), rfl, (), rfl, _, rfl, rfl⟩

theorem openGate_sample : openGate sampleOutside sampleDirectory = .ok sampleGate := by
  simp only [openGate, bind_eq_ok, pure_eq_ok, refuseIf_eq_ok, privateRead_eq_ok]
  have hlength : (toVec freshJournal.toJson).length ≤ Inference.maxBytes :=
    length_freshJournal.trans (by decide)
  obtain ⟨i, hi⟩ := verifyLoaded_sample
  exact ⟨_, readLedger_sample, _, ⟨_, requests_sampleDirectory, isPrivate_sampleFile hlength, rfl⟩, _,
    decodeJournal_sample, _, inventory_sample, (), rfl, i, hi, rfl⟩

theorem retentionIdle_sample : retentionIdle sampleOutside sampleDirectory = .ok () := by
  simp only [retentionIdle, bind_eq_ok, pure_eq_ok, okOr_eq_ok, refuseIf_eq_ok]
  obtain ⟨i, hi⟩ := verifyLoaded_sample
  exact ⟨_, openGate_sample, (), rfl, _, rfl, i, hi, trivial⟩

theorem identity_sample {name : String} {bytes : Bytes}
    (h : sampleDirectory.files[name]? = some (sampleFile bytes)) (hlength : bytes.length ≤ maxBytes) :
    ∃ i, identity sampleOutside sampleDirectory name = .ok i :=
  ⟨_, identityOf_eq_ok.mpr ⟨_, h, exact_sampleFile hlength, rfl⟩⟩

theorem accept_sample : accept sampleOutside sampleDirectory idleLedger sampleStage = .ok () := by
  have hname : preparation sampleStage = .ok ⟨1, repeatText "a" 64⟩ := by decide
  exact accept_stage (by decide) (by decide) hname (by decide)

theorem planned_sample :
    Planned sampleOutside sampleDirectory [sampleStage] idleLedger sampleGate where
  few := ⟨List.cons_ne_nil _ _, by decide⟩
  ledger := readLedger_sample
  released := ⟨by decide, rfl⟩
  archives := verifyArchives_sample
  gate := openGate_sample
  idle := retentionIdle_sample
  requests := identity_sample requests_sampleDirectory (length_freshJournal.trans (by decide))
  nodup := List.nodup_singleton _
  accepted n hn := List.mem_singleton.mp hn ▸ accept_sample
  found n hn := List.mem_singleton.mp hn ▸ identity_sample stage_sampleDirectory (Nat.zero_le _)
  ledgerIdentity := identity_sample ledger_sampleDirectory (length_idleLedger.trans (by decide))

theorem not_record_sample {a : String} (h : isRecord a = true) : a ∉ sampleDirectory.files := by
  intro hmem
  obtain ⟨f, hf⟩ := Table.mem_iff_get.mp hmem
  rcases entry_sampleDirectory (e := (a, f)) (Table.mem_toList_iff_get.mpr hf) with rfl | rfl | rfl
  · exact absurd h (by decide)
  · exact absurd h (by decide)
  · exact absurd h (by decide)

/-- The store has no record of deletions. -/
theorem settled_sample : Settled sampleOutside sampleDirectory where
  outcomes := by
    refine retentionOutcomes_complete readLedger_sample (size_sampleDirectory.trans (by decide)) ?_
      fun r hr => absurd hr (not_record_sample (isRecord_intentName r))
    have hcount := List.countP_le_length (p := isIntent) (l := sampleDirectory.files.toList)
    rw [Std.ExtTreeMap.length_toList] at hcount
    have hsize := size_sampleDirectory
    have hbound : (3 : Nat) ≤ maxOutcomes := by decide
    unfold Directory.intents
    omega
  receipts r hr := absurd hr (not_record_sample (isRecord_receiptName r))
  spent r p hp := by
    obtain ⟨-, -, -, f, hf, -⟩ := readIntent_eq_ok.mp hp
    exact absurd (Table.mem_iff_get.mpr ⟨f, hf⟩) (not_record_sample (isRecord_intentName r))

theorem proceeds_sample :
    ∃ plan, Proceeds sampleOutside sampleDirectory [sampleStage] sampleDigest plan := by
  obtain ⟨plan, hplan⟩ := planned_sample.deletionPlan
  obtain ⟨t, ht⟩ := settled_sample.outcomes
  have hsize := size_sampleDirectory
  have hroom : 3 < maxEntries - 2 := by decide
  refine ⟨plan, hplan, rfl, ⟨t, ht, ?_⟩, by omega, ?_⟩
  · obtain ⟨-, -, hcount, -⟩ := retentionOutcomes_ok ht
    have hle := List.countP_le_length (p := isIntent) (l := sampleDirectory.files.toList)
    rw [Std.ExtTreeMap.length_toList] at hle
    have hbound : (3 : Nat) < maxOutcomes := by decide
    rw [Directory.intents] at hcount
    omega
  · exact Table.not_mem_iff_get.mp (not_record_sample (isRecord_intentName _))

/-- What the file system shows in the runs below. -/
def sampleSeen : Seen where
  device := 1
  inode := 9
  time := 7
  timeNs := 8
  umask := 0
  part := 0

/-- **A call that is cut off right behind the creation of its intent ends all deletion.** The store
had evidence that could be deleted; afterwards no outcome is listed, and no run deletes anything. -/
theorem deletion_blocks_itself :
    ∃ plan, deletionPlan sampleOutside sampleDirectory [sampleStage] = .ok plan ∧
      Settled sampleOutside sampleDirectory ∧
      let cut := DeletionStep.mk [sampleStage] (plan.review sampleOutside)
        (List.replicate 7 (.done sampleSeen))
      (∀ t, retentionOutcomes sampleOutside (cut.leaves sampleOutside sampleDirectory) ≠ .ok t) ∧
      ∀ steps, sampleStage ∈
        (deletionRun sampleOutside (cut.leaves sampleOutside sampleDirectory) steps).files := by
  obtain ⟨plan, hplan⟩ := proceeds_sample
  obtain ⟨hno, hsame⟩ := hplan.blocks sampleSeen
  refine ⟨plan, hplan.planned, settled_sample, ?_⟩
  rw [hplan.review]
  refine ⟨hno, fun steps => ?_⟩
  have hrun := hsame steps
  rw [hplan.cut sampleSeen] at hrun
  simp only [DeletionStep.leaves]
  rw [hplan.cut sampleSeen, hrun]
  refine Table.mem_iff_get.mpr ⟨sampleFile [], ?_⟩
  rw [get_put, if_neg (by decide)]
  exact stage_sampleDirectory

/-- A call in which everything is done carries its plan out. -/
theorem deletion_accounted_sample :
    let steps := [DeletionStep.mk [sampleStage] sampleDigest (List.replicate 30 (.done sampleSeen))]
    ∃ t, retentionOutcomes sampleOutside (deletionRun sampleOutside sampleDirectory steps) =
      .ok t := by
  intro steps
  have hreplies : ∀ plan, Proceeds sampleOutside sampleDirectory [sampleStage] sampleDigest plan →
      Whole 3 (afterDone (12 + 5 * plan.files.toList.length)
        (List.replicate 30 (.done sampleSeen))) := fun plan h => by
    obtain ⟨_, _, -, hd⟩ := deletionPlan_eq_ok h.planned
    rw [Std.ExtTreeMap.length_toList, hd.size]
    exact fun _ => trivial
  have hspared : Spared sampleOutside sampleDirectory steps :=
    ⟨⟨fun _ _ _ => trivial, hreplies, by decide⟩, trivial⟩
  exact ((@deletion_accounted_when _ _ steps settled_sample).2.2.2 hspared).1

end LumaOS.Evidence
