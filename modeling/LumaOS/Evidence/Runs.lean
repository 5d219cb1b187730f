import LumaOS.Evidence.Settled

/-!
# Runs of deletions

A run is any sequence of `delete_retained_checked` calls, each on a store that has just been opened
and with the replies it sees, so each with failing checks and cut off anywhere.

* `deletion_accounted_when`: what every call removes, and what no run touches; and in a run whose
  calls do not stop between the creation of the intent and the removal of the first target, nor
  inside the receipt, the outcomes can be listed and evidence that is left can be deleted.
-/

namespace LumaOS.Evidence

open LumaOS.Base LumaOS.Text LumaOS.Json
open LumaOS.Resources (Ledger)
open LumaOS.Inference (Gate)
open Mut (exec)

variable {O : Outside} {d d' w : Directory} {plan : DeletionPlan} {names : List String}
  {reviewed : String} {replies : List (Reply Seen)}

/-! ## Where nothing fails -/

theorem succeeds_observe {α : Type} {r : Directory → Result α} {a : α} (h : r w = .ok a) :
    Succeeds 1 (observe r) w fun b w' => b = a ∧ w' = w :=
  succeeds_call fun _ => ⟨a, w, Prod.ext h rfl, rfl, rfl⟩

theorem succeeds_probe : Succeeds 1 probe w fun _ w' => w' = w :=
  succeeds_call fun _ => ⟨(), w, rfl, rfl⟩

theorem succeeds_bind_observe {α β : Type} {r : Directory → Result α} {a : α} {n : Nat}
    {f : α → Calls Directory Seen β} {T : β → Directory → Prop} (h : r w = .ok a)
    (hf : Succeeds n (f a) w T) : Succeeds (1 + n) (observe r >>= f) w T :=
  succeeds_bind (succeeds_observe h) fun _ _ ⟨hb, hw⟩ => hb ▸ hw ▸ hf

theorem succeeds_bind_probe {β : Type} {n : Nat} {f : Unit → Calls Directory Seen β}
    {T : β → Directory → Prop} (hf : Succeeds n (f ()) w T) :
    Succeeds (1 + n) (probe >>= f) w T :=
  succeeds_bind succeeds_probe fun _ _ hw => hw ▸ hf

theorem succeeds_publishEvidence {name : String} {bytes : Bytes} (hnew : d.files[name]? = none) :
    Succeeds 5 (publishEvidence name bytes) d fun _ w' =>
      ∃ g, Written bytes g ∧ w' = d.put name g := by
  have hcontains : d.files.contains name = false := by
    rw [← Bool.not_eq_true, ← Std.ExtTreeMap.mem_iff_contains]
    exact Table.not_mem_iff_get.mpr hnew
  simp only [publishEvidence, writeAll, bind_assoc]
  refine succeeds_bind (n := 1) (k := 4) (T := fun _ w' => ∃ g, Written [] g ∧ w' = d.put name g)
    (succeeds_call fun seen => ⟨.unit, d.put name (created seen), ?_, _,
      ⟨kept_created seen, rfl⟩, rfl⟩) ?_
  · rw [Mut.exec_bind_get, hcontains]
    rfl
  rintro _ _ ⟨g, hg, rfl⟩
  refine succeeds_bind (n := 1) (k := 3)
    (T := fun n w' => ∃ g, Written (bytes.take n) g ∧ w' = d.put name g)
    (succeeds_call fun seen => ⟨seen.before bytes,
      d.put name (g.append (bytes.take (seen.before bytes)) seen), ?_,
      g.append (bytes.take (seen.before bytes)) seen, ⟨hg.1, ?_⟩, rfl⟩) ?_
  · exact Prod.ext rfl modify_put
  · rw [File.append, hg.2, List.nil_append]
  rintro n _ ⟨g, hg, rfl⟩
  refine succeeds_bind (n := 1) (k := 2)
    (T := fun _ w' => ∃ g, Written bytes g ∧ w' = d.put name g)
    (succeeds_call fun seen => ⟨.unit, d.put name (g.append (bytes.drop n) seen), ?_,
      g.append (bytes.drop n) seen, ⟨hg.1, ?_⟩, rfl⟩) ?_
  · exact Prod.ext rfl modify_put
  · rw [File.append, hg.2, List.take_append_drop]
  rintro _ _ ⟨g, hg, rfl⟩
  change Succeeds (1 + 1) _ _ _
  exact succeeds_bind_probe (succeeds_probe.mono fun _ _ hw => ⟨g, hg, hw⟩)

theorem succeeds_deleteOne {e : String × Identity} {entries : List (String × Identity)}
    (h : Ready O plan (e :: entries) w) :
    Succeeds 5 (deleteOne O plan e) w fun _ w' => w' = w.without [e.1] := by
  obtain ⟨f, hf⟩ := h.file
  have hbefore : (do
      unchanged O plan "resource retention authority or evidence changed before deletion" w
      let found ← identity O w e.1
      refuseIf (found != e.2)
        "resource retention authority or evidence changed before deletion" : Result Unit) =
          .ok () := by
    rw [h.unchanged, h.found e List.mem_cons_self]
    simp [bind, Except.bind, refuseIf]
  have hgone : (w.without [e.1]).files.contains e.1 = false := by
    rw [← Bool.not_eq_true, ← Std.ExtTreeMap.mem_iff_contains]
    refine Table.not_mem_iff_get.mpr ?_
    rw [get_without, if_pos List.mem_cons_self]
  have hafter : (do
      refuseIf ((w.without [e.1]).files.contains e.1)
        "resource evidence deletion outcome is uncertain"
      unchanged O plan "resource ledger changed during evidence deletion" (w.without [e.1]) :
        Result Unit) = .ok () := by
    rw [hgone, h.next.unchanged]
    rfl
  change Succeeds (1 + (1 + (1 + (1 + 1)))) _ _ _
  refine succeeds_bind_probe (succeeds_bind_observe (r := fun d => do
    unchanged O plan "resource retention authority or evidence changed before deletion" d
    let found ← identity O d e.1
    refuseIf (found != e.2)
      "resource retention authority or evidence changed before deletion") hbefore ?_)
  refine succeeds_bind (n := 1) (k := 2) (T := fun _ w' => w' = w.without [e.1])
    (succeeds_call fun seen => ⟨.unit, w.without [e.1], unlink_eq hf seen, rfl⟩) ?_
  rintro _ _ rfl
  change Succeeds (1 + 1) _ _ _
  exact succeeds_bind_probe ((succeeds_observe (r := fun d => do
    refuseIf (d.files.contains e.1) "resource evidence deletion outcome is uncertain"
    unchanged O plan "resource ledger changed during evidence deletion" d) hafter).mono
      fun _ _ hw => hw.2)

theorem succeeds_deleteAll : ∀ {entries : List (String × Identity)} {w : Directory},
    Ready O plan entries w → Succeeds (5 * entries.length) (entries.forM (deleteOne O plan)) w
      fun _ w' => w' = w.without (entries.map Prod.fst)
  | [], w, _ => (shows_pure (a := PUnit.unit) (w := w)).succeeds rfl
  | e :: entries, w, h => by
    rw [List.length_cons, Nat.mul_succ, Nat.add_comm]
    refine succeeds_bind (succeeds_deleteOne h) fun _ w' hw' => ?_
    subst hw'
    exact succeeds_deleteAll h.next

/-- **Where nothing fails, a call that gets to its intent carries out its plan.** -/
theorem Proceeds.deletes (h : Proceeds O d names reviewed plan)
    (hreceipt : d.files[receiptName reviewed]? = none) :
    Succeeds (17 + 5 * plan.files.toList.length) (deleteRetainedChecked O names reviewed) d
      fun _ w' => ∃ g f, Written plan.bytes g ∧
        Written (toVec (receiptJson reviewed plan.files)) f ∧
          w' = (deleting d reviewed g plan.targets).put (receiptName reviewed) f := by
  obtain ⟨l, gate, hplanned, hd⟩ := deletionPlan_eq_ok h.planned
  obtain ⟨t, ht, hfew⟩ := h.outcomes
  have hreview : (plan.review O != reviewed) = false := bne_eq_false_iff_eq.mpr h.review
  have hagain : (plan != plan) = false := bne_eq_false_iff_eq.mpr rfl
  have hdirectory : refuseIf (d.identity != plan.directory) "resource retention directory changed" =
      .ok () := refuseIf_eq_ok.mpr (bne_eq_false_iff_eq.mpr hd.directory.symm)
  have hroom := h.room
  rw [show 17 + 5 * plan.files.toList.length =
    1 + (1 + (1 + (1 + (1 + (1 + (5 + (5 * plan.files.toList.length + (1 + (5 + 0))))))))) by omega]
  unfold deleteRetainedChecked
  refine succeeds_bind_observe h.planned (succeeds_bind_refuseIf hreview ?_)
  refine succeeds_bind_probe (succeeds_bind_observe h.planned (succeeds_bind_refuseIf hagain ?_))
  refine succeeds_bind_observe hdirectory (succeeds_bind_observe ht ?_)
  refine succeeds_bind_refuseIf (by simpa using hfew) ?_
  refine succeeds_bind_observe (a := d.files.size) rfl
    (succeeds_bind_refuseIf (decide_eq_false (not_le.mpr hroom)) ?_)
  refine succeeds_bind (succeeds_publishEvidence h.fresh) ?_
  rintro _ _ ⟨g, hg, rfl⟩
  refine succeeds_bind (succeeds_deleteAll (h.ready g)) ?_
  rintro _ _ rfl
  have hpruned := (h.after (g := g) (List.prefix_refl plan.targets)).pruned hplanned.ledger
    hplanned.gate
  have hchecks : (do
      let ledger ← readLedger (deleting d reviewed g plan.targets)
      verifyArchives O ledger (deleting d reviewed g plan.targets)
      retentionIdle O (deleting d reviewed g plan.targets) : Result Unit) = .ok () := by
    rw [hpruned.ledger.readLedger, hplanned.ledger]
    refine bind_eq_ok.mpr ⟨l, rfl, bind_eq_ok.mpr ⟨(), hpruned.verifyArchives hplanned.archives, ?_⟩⟩
    exact hpruned.retentionIdle hplanned.gate hplanned.idle
  have hnone : (deleting d reviewed g plan.targets).files[receiptName reviewed]? = none := by
    rw [get_deleting, if_neg (h.not_record (List.prefix_refl _) (isRecord_receiptName _)),
      if_neg (intentName_ne_receiptName _ _)]
    exact hreceipt
  refine succeeds_bind_observe (r := fun w => do
      let ledger ← readLedger w
      verifyArchives O ledger w
      retentionIdle O w) hchecks ?_
  refine succeeds_bind (succeeds_publishEvidence hnone) ?_
  rintro _ _ ⟨f, hf, rfl⟩
  exact (shows_pure _).succeeds ⟨g, f, hg, hf, rfl⟩

/-! ## Runs -/

/-- A call and the replies it sees. -/
structure DeletionStep where
  names : List String
  reviewed : String
  replies : List (Reply Seen)

/-- The directory that a step leaves. -/
def DeletionStep.leaves (O : Outside) (s : DeletionStep) (d : Directory) : Directory :=
  (deleteRetainedChecked O s.names s.reviewed).leaves d s.replies

def deletionRun (O : Outside) (d : Directory) (steps : List DeletionStep) : Directory :=
  steps.foldl (fun d s => s.leaves O d) d

/-- No step stops between the creation of its intent and the removal of its first target, nor
inside its receipt. -/
def Spared (O : Outside) : Directory → List DeletionStep → Prop
  | _, [] => True
  | d, s :: rest => CallSpared O d s.names s.reviewed s.replies ∧ Spared O (s.leaves O d) rest

/-! ### What one call removes -/

/-- **The account of one call.** It removes nothing, or the first targets of its plan in the order
of their names, each with its planned identity, under an intent that holds the whole plan. -/
inductive Accounted (O : Outside) (d : Directory) (names : List String) (reviewed : String)
    (d' : Directory) : Prop
  | nothing (kept : ∀ a, isRecord a = false → Same d d' a)
  | removed (plan : DeletionPlan) (gone : List String) (g : File)
      (planned : deletionPlan O d names = .ok plan) (review : plan.review O = reviewed)
      (start : gone <+: plan.targets) (ordered : plan.targets.Pairwise (· < ·))
      (identities : ∀ a ∈ gone, ∃ i, plan.files[a]? = some i ∧ identity O d a = .ok i)
      (intent : d'.files[intentName reviewed]? = some g) (whole : g.bytes = plan.bytes)
      (others : ∀ a, isRecord a = false → d'.files[a]? = if a ∈ gone then none else d.files[a]?)

theorem After.accounted {gone : List String} {g : File}
    (h : After O d names reviewed plan gone d') (hfile : d'.files[intentName reviewed]? = some g)
    (hbytes : g.bytes = plan.bytes) : Accounted O d names reviewed d' := by
  obtain ⟨l, gate, hplanned, hd⟩ := deletionPlan_eq_ok h.proceeds.planned
  refine .removed plan gone g h.proceeds.planned h.proceeds.review h.targets ?_ (fun a ha => ?_)
    hfile hbytes h.others
  · exact List.pairwise_map.mpr Table.sorted_toList
  · obtain ⟨i, hi⟩ := mem_targets.mp (h.targets.subset ha)
    exact ⟨i, hi, ((hd.files a i).mp hi).2⟩

theorem Left.accounted (h : Left O d names reviewed replies d') :
    Accounted O d names reviewed d' := by
  cases h with
  | untouched h => exact .nothing fun a _ => by rw [Same, h]
  | removed plan gone g part after written start intent receipt stop =>
    rcases stop with ⟨rfl, -⟩ | ⟨-, rfl⟩
    · refine .nothing fun a ha => ?_
      rw [Same, after.others a ha, if_neg List.not_mem_nil]
    · exact after.accounted intent written.2
  | receipted plan g f part after intent intentFile written start receipt absent stop =>
    exact after.accounted intentFile intent.2

/-! ### What no run touches -/

/-- The call leaves the directory alone, or removes unreferenced evidence. -/
theorem Left.pruned {l : Ledger} {gate : Gate} (h : Left O d names reviewed replies d')
    (hl : readLedger d = .ok l) (hgate : openGate O d = .ok gate) :
    d' = d ∨ Pruned l gate d d' := by
  cases h with
  | untouched h => exact .inl h
  | removed plan gone g part after written start intent receipt stop
  | receipted plan g f part after intent intentFile written start receipt absent stop =>
    exact .inr (after.pruned hl hgate)

theorem deletionRun_pruned {l : Ledger} {gate : Gate} :
    ∀ {steps : List DeletionStep} {d : Directory}, readLedger d = .ok l →
      openGate O d = .ok gate → deletionRun O d steps = d ∨ Pruned l gate d (deletionRun O d steps)
  | [], _, _, _ => .inl rfl
  | s :: steps, d, hl, hgate => by
    have hrest : ∀ {w : Directory}, readLedger w = .ok l → openGate O w = .ok gate →
        deletionRun O w steps = w ∨ Pruned l gate w (deletionRun O w steps) :=
      fun hl hgate => deletionRun_pruned hl hgate
    rcases ((@delete_left O d s.names s.reviewed s.replies)).pruned hl hgate with hsame | hpruned
    · rw [show deletionRun O d (s :: steps) = deletionRun O (s.leaves O d) steps from rfl,
        show s.leaves O d = d from hsame]
      exact hrest hl hgate
    · rcases hrest (hpruned.ledger.readLedger.trans hl) (hpruned.openGate hgate) with hend | hend
      · exact .inr (hend ▸ hpruned)
      · exact .inr (hpruned.trans hend)

/-- A plan is made only where the ledger and the journal can be read. -/
theorem Left.untouched_of_unread (h : Left O d names reviewed replies d')
    (hunread : ∀ l gate, readLedger d = .ok l → openGate O d ≠ .ok gate) : d' = d := by
  have hno : ∀ plan, ¬ Proceeds O d names reviewed plan := fun plan hp => by
    obtain ⟨l, gate, hplanned, -⟩ := deletionPlan_eq_ok hp.planned
    exact hunread l gate hplanned.ledger hplanned.gate
  cases h with
  | untouched h => exact h
  | removed plan gone g part after written start intent receipt stop
  | receipted plan g f part after intent intentFile written start receipt absent stop =>
    exact absurd after.proceeds (hno plan)

theorem deletionRun_untouched : ∀ {steps : List DeletionStep} {d : Directory},
    (∀ l gate, readLedger d = .ok l → openGate O d ≠ .ok gate) → deletionRun O d steps = d
  | [], _, _ => rfl
  | s :: steps, d, h => by
    have hsame : s.leaves O d = d := delete_left.untouched_of_unread h
    rw [show deletionRun O d (s :: steps) = deletionRun O (s.leaves O d) steps from rfl, hsame]
    exact deletionRun_untouched h

/-- **What keeps its bytes**: the ledger, the journal, and every archive they refer to. -/
structure Preserved (O : Outside) (d d' : Directory) : Prop where
  ledger : Same d d' "ledger.json"
  requests : Same d d' "requests.json"
  archives : ∀ l, readLedger d = .ok l → ∀ a ∈ l.archives, Same d d' (archiveName a)
  requestArchives : ∀ gate, openGate O d = .ok gate → ∀ a ∈ gate.retention.archives,
    Same d d' (requestArchiveName a)

theorem preserved_refl : Preserved O d d :=
  ⟨rfl, rfl, fun _ _ _ _ => rfl, fun _ _ _ _ => rfl⟩

theorem deletionRun_preserved {steps : List DeletionStep} :
    Preserved O d (deletionRun O d steps) := by
  by_cases hread : ∃ l gate, readLedger d = .ok l ∧ openGate O d = .ok gate
  · obtain ⟨l, gate, hl, hgate⟩ := hread
    rcases (@deletionRun_pruned _ _ _ steps) hl hgate with hsame | hpruned
    · rw [hsame]
      exact preserved_refl
    · refine ⟨hpruned.ledger, hpruned.requests, fun l' hl' => ?_, fun gate' hgate' => ?_⟩
      · obtain rfl := Except.ok.inj (hl.symm.trans hl')
        exact hpruned.archives
      · obtain rfl := Except.ok.inj (hgate.symm.trans hgate')
        exact hpruned.requestArchives
  · rw [deletionRun_untouched fun l gate hl hgate => hread ⟨l, gate, hl, hgate⟩]
    exact preserved_refl

/-! ### What is confirmed -/

/-- The directory holds an intent of this review and its whole receipt. -/
def Confirmed (O : Outside) (d : Directory) (reviewed : String) (targets : Table Identity) : Prop :=
  ∃ p, readIntent O d reviewed = .ok p ∧ readReceipt d reviewed p = .ok true ∧ targets = p.files

/-- **The call carried its plan out**: each target was there with its planned identity, and is
gone. -/
def CarriedOut (O : Outside) (d : Directory) (s : DeletionStep) (targets : Table Identity) : Prop :=
  ∃ plan, deletionPlan O d s.names = .ok plan ∧ plan.review O = s.reviewed ∧
    targets = plan.files ∧ ∀ (a : String) i, plan.files[a]? = some i →
      identity O d a = .ok i ∧ (s.leaves O d).files[a]? = none

/-- Every receipt has its intent. -/
def Owned (d : Directory) : Prop := ∀ r, receiptName r ∈ d.files → intentName r ∈ d.files

theorem After.owned {gone : List String} {g : File} (h : After O d names reviewed plan gone d')
    (hd : Owned d) (hfile : d'.files[intentName reviewed]? = some g) : Owned d' := by
  intro r hr
  by_cases hsame : r = reviewed
  · exact hsame ▸ Table.mem_iff_get.mpr ⟨g, hfile⟩
  · obtain ⟨hi, hrec⟩ := h.other hsame
    obtain ⟨f, hf⟩ := Table.mem_iff_get.mp hr
    obtain ⟨f', hf'⟩ := Table.mem_iff_get.mp
      (hd r (Table.mem_iff_get.mpr ⟨f, hrec.symm.trans hf⟩))
    exact Table.mem_iff_get.mpr ⟨f', Eq.trans hi hf'⟩

theorem Left.owned (h : Left O d names reviewed replies d') (hd : Owned d) : Owned d' := by
  cases h with
  | untouched h => exact h ▸ hd
  | removed plan gone g part after written start intent receipt stop => exact after.owned hd intent
  | receipted plan g f part after intent intentFile written start receipt absent stop =>
    exact after.owned hd intentFile

/-- An intent of whole bytes is read as its plan, or not at all. -/
theorem After.plan_of_readIntent {gone : List String} {g : File} {p : DeletionPlan}
    (h : After O d names reviewed plan gone d') (hg : Written plan.bytes g)
    (hfile : d'.files[intentName reviewed]? = some g)
    (hp : Evidence.readIntent O d' reviewed = .ok p) : p = plan := by
  obtain ⟨l, gate, hplanned, hd⟩ := deletionPlan_eq_ok h.proceeds.planned
  obtain ⟨-, -, hfits, f, hf, -, hbytes⟩ := readIntent_eq_ok.mp hp
  obtain rfl := Option.some.inj (hfile.symm.trans hf)
  have hplan := DeletionPlan.decodeAs_bytes
    (hd.generation ▸ (readLedger_fits hplanned.ledger).generation : plan.generation < 2 ^ 64)
  have hread := DeletionPlan.decodeAs_bytes hfits
  rw [← hbytes, hg.2, hplan] at hread
  exact (Option.some.inj hread).symm

/-- A review is confirmed after a call only if it was before, or the call carried it out. -/
theorem confirmed_step {s : DeletionStep} {r : String} {targets : Table Identity} (hd : Owned d)
    (h : Confirmed O (s.leaves O d) r targets) :
    Confirmed O d r targets ∨ (s.reviewed = r ∧ CarriedOut O d s targets) := by
  have hleft : Left O d s.names s.reviewed s.replies (s.leaves O d) := delete_left
  have hother : ∀ {plan gone}, After O d s.names s.reviewed plan gone (s.leaves O d) →
      r ≠ s.reviewed → Confirmed O d r targets := fun hafter hne => by
    obtain ⟨p, hp, hc, htargets⟩ := h
    obtain ⟨hi, hrec⟩ := hafter.other hne
    exact ⟨p, (readIntent_congr hi).symm.trans hp, (readReceipt_congr hrec).symm.trans hc, htargets⟩
  cases hleft with
  | untouched hsame => exact .inl (hsame ▸ h)
  | removed plan gone g part after written start intent receipt stop =>
    by_cases hr : r = s.reviewed
    · -- there is no receipt of this review
      subst hr
      obtain ⟨p, -, hc, -⟩ := h
      obtain ⟨f, hf, -⟩ := readReceipt_eq_true.mp hc
      have hmem := hd s.reviewed (Table.mem_iff_get.mpr ⟨f, receipt.symm.trans hf⟩)
      exact absurd hmem (Table.not_mem_iff_get.mpr after.proceeds.fresh)
    · exact .inl (hother after hr)
  | receipted plan g f part after intent intentFile written start receipt absent stop =>
    by_cases hr : r = s.reviewed
    · subst hr
      obtain ⟨p, hp, -, htargets⟩ := h
      obtain rfl := after.plan_of_readIntent intent intentFile hp
      obtain ⟨l, gate, hplanned, hdesc⟩ := deletionPlan_eq_ok after.proceeds.planned
      refine .inr ⟨rfl, p, after.proceeds.planned, after.proceeds.review, htargets,
        fun a i hi => ⟨((hdesc.files a i).mp hi).2, ?_⟩⟩
      have ha := mem_targets.mpr ⟨i, hi⟩
      rw [after.others a (not_isRecord_of_isEvidence
        (isEvidence_of_target after.proceeds.planned ha)), if_pos ha]
    · exact .inl (hother after hr)

theorem confirmed_run {r : String} {targets : Table Identity} :
    ∀ {steps : List DeletionStep} {d : Directory}, Owned d →
      Confirmed O (deletionRun O d steps) r targets →
        Confirmed O d r targets ∨ ∃ before s after, steps = before ++ s :: after ∧
          s.reviewed = r ∧ CarriedOut O (deletionRun O d before) s targets
  | [], _, _, h => .inl h
  | s :: steps, d, hd, h => by
    have howned : Owned (s.leaves O d) := delete_left.owned hd
    rcases (@confirmed_run _ _ steps) howned h with hstart | ⟨before, x, after, rfl, hx, hout⟩
    · rcases confirmed_step hd hstart with hd' | ⟨hr, hout⟩
      · exact .inl hd'
      · exact .inr ⟨[], s, steps, rfl, hr, hout⟩
    · exact .inr ⟨s :: before, x, after, rfl, hx, hout⟩

/-! ### What is left can be deleted -/

/-- The review of `plan` is the review of no other plan that has an intent. -/
def Apart (O : Outside) (d : Directory) (plan : DeletionPlan) : Prop :=
  ∀ r p, readIntent O d r = .ok p → p.review O = plan.review O → p = plan

/-- **A plan made in a settled directory is carried out.** -/
theorem Settled.deletes (h : Settled O d) (hplan : deletionPlan O d names = .ok plan)
    (hapart : Apart O d plan) (hfew : d.intents < maxOutcomes)
    (hroom : d.files.size < maxEntries - 2) :
    Succeeds (17 + 5 * plan.files.toList.length) (deleteRetainedChecked O names (plan.review O)) d
      fun _ w => ∀ a ∈ names, a ∉ w.files := by
  obtain ⟨l, gate, hplanned, hd⟩ := deletionPlan_eq_ok hplan
  obtain ⟨t, ht⟩ := h.outcomes
  obtain ⟨-, -, hsize, -, hrep, hlisted⟩ := retentionOutcomes_ok ht
  have hnew : intentName (plan.review O) ∉ d.files := fun hmem => by
    obtain ⟨o, ho⟩ := Table.mem_iff_get.mp ((hlisted _).mpr hmem)
    obtain ⟨-, p, hp, -⟩ := hrep _ o ho
    obtain rfl := hapart _ p hp (readIntent_eq_ok.mp hp).2.1
    -- the plan of an intent has lost a target, and this one has not
    obtain ⟨a, i, hi, -, hne⟩ := h.spent _ p hp
    exact hne ((hd.files a i).mp hi).2
  have hproceeds : Proceeds O d names (plan.review O) plan :=
    ⟨hplan, rfl, ⟨t, ht, hsize ▸ hfew⟩, hroom, Table.not_mem_iff_get.mp hnew⟩
  refine (hproceeds.deletes (not_mem_receipt h hproceeds)).mono ?_
  rintro _ w ⟨g, f, -, -, rfl⟩ a ha hmem
  obtain ⟨i, hi⟩ := hplanned.found a ha
  have htarget : a ∈ plan.targets := mem_targets.mpr ⟨i, (hd.files a i).mpr ⟨ha, hi⟩⟩
  have hrecord := not_isRecord_of_isEvidence (isEvidence_of_target hplan htarget)
  obtain ⟨x, hx⟩ := Table.mem_iff_get.mp hmem
  rw [hproceeds.after_receipt.others a hrecord, if_pos htarget] at hx
  cases hx

theorem Settled.run : ∀ {steps : List DeletionStep} {d : Directory}, Settled O d →
    Spared O d steps → Settled O (deletionRun O d steps)
  | [], _, h, _ => h
  | s :: steps, d, h, ⟨hs, hrest⟩ =>
    have hnext : Settled O (s.leaves O d) := delete_left.settled h hs
    (@Settled.run steps) hnext hrest

/-- Accepted evidence that a run has left is accepted after it. -/
theorem deletionRun_planned {steps : List DeletionStep} {kept : List String}
    (hplan : deletionPlan O d names = .ok plan) (hkept : kept.Sublist names) (hne : kept ≠ [])
    (hexists : ∀ a ∈ kept, a ∈ (deletionRun O d steps).files) :
    ∃ p, deletionPlan O (deletionRun O d steps) kept = .ok p := by
  obtain ⟨l, gate, hplanned, -⟩ := deletionPlan_eq_ok hplan
  have hsize : d.files.size ≤ maxEntries := by
    have harchives := hplanned.archives
    simp only [verifyArchives, bind_eq_ok, scan_eq_ok] at harchives
    obtain ⟨_, ⟨hsize, -⟩, -⟩ := harchives
    exact hsize
  have hpruned : Pruned l gate d (deletionRun O d steps) := by
    rcases (@deletionRun_pruned _ _ _ steps) hplanned.ledger hplanned.gate with hsame | hpruned
    · rw [hsame]
      exact Pruned.refl hsize
    · exact hpruned
  exact (hpruned.planned hplanned hkept hne hexists).deletionPlan

/-- **Deletion is exactly accounted, and blocks itself only where a call stops at the wrong
moment.** In every run each call removes the first targets of its plan, in order and under its whole
intent, or nothing; the ledger, the journal and what they refer to stay as they are; and a review is
confirmed only if it was at the start or a call carried out its plan. In a run whose calls do not
stop between the creation of the intent and the removal of the first target, nor inside the receipt,
the outcomes can be listed, every plan that can be made can be carried out, and evidence that was
accepted and still exists is accepted. -/
theorem deletion_accounted_when {steps : List DeletionStep} (h : Settled O d) :
    (∀ before s after, steps = before ++ s :: after →
      Accounted O (deletionRun O d before) s.names s.reviewed
        (s.leaves O (deletionRun O d before))) ∧
    Preserved O d (deletionRun O d steps) ∧
    (∀ t, retentionOutcomes O (deletionRun O d steps) = .ok t → ∀ (r : String) o, t[r]? = some o →
      o.confirmed = true → Confirmed O d r o.targets ∨
        ∃ before s after, steps = before ++ s :: after ∧ s.reviewed = r ∧
          CarriedOut O (deletionRun O d before) s o.targets) ∧
    (Spared O d steps →
      (∃ t, retentionOutcomes O (deletionRun O d steps) = .ok t) ∧
      (∀ names plan, deletionPlan O (deletionRun O d steps) names = .ok plan →
        Apart O (deletionRun O d steps) plan → (deletionRun O d steps).intents < maxOutcomes →
        (deletionRun O d steps).files.size < maxEntries - 2 →
          Succeeds (17 + 5 * plan.files.toList.length)
            (deleteRetainedChecked O names (plan.review O)) (deletionRun O d steps)
            fun _ w => ∀ a ∈ names, a ∉ w.files) ∧
      ∀ names kept plan, deletionPlan O d names = .ok plan → kept.Sublist names → kept ≠ [] →
        (∀ a ∈ kept, a ∈ (deletionRun O d steps).files) →
          ∃ p, deletionPlan O (deletionRun O d steps) kept = .ok p) := by
  refine ⟨fun before s after _ => delete_left.accounted, deletionRun_preserved,
    fun t ht r o ho hconfirmed => ?_, fun hs => ?_⟩
  · obtain ⟨-, -, -, -, hrep, -⟩ := retentionOutcomes_ok ht
    obtain ⟨-, p, hp, hc, htargets⟩ := hrep r o ho
    exact confirmed_run h.receipts ⟨p, hp, hconfirmed ▸ hc, htargets⟩
  · have hend := h.run hs
    exact ⟨hend.outcomes, fun names plan hplan hapart hfew hroom =>
      hend.deletes hplan hapart hfew hroom,
      fun names kept plan hplan hkept hne hexists => deletionRun_planned hplan hkept hne hexists⟩

end LumaOS.Evidence
