import LumaOS.Evidence.Pruned

/-!
# The evidence a plan accepts

What `deletion_plan` takes is never the ledger, the journal, a record of deletions or an archive
that one of the first two refers to, its name is short, and it is still taken when other evidence
has gone.

* `accept_apart`: accepted evidence is unreferenced.
* `deletionPlan_eq_ok`: what a plan says of the directory it was made in.
* `Pruned.planned`: accepted evidence that still exists is accepted.
-/

namespace LumaOS.Evidence

open LumaOS.Base LumaOS.Text LumaOS.Json
open LumaOS.Resources (Ledger)
open LumaOS.Inference (Gate digestValid)

variable {O : Outside} {d d' : Directory} {name : String} {l : Ledger} {gate : Gate}

/-! ## Names -/

theorem stops_dash (r : List Char) : Stops ('-' :: r) := fun c hc => by
  obtain rfl : '-' = c := Option.some.inj hc
  decide

/-- A number and a dash are read off the front of a name. -/
theorem numbered_inj {start tail s t : String} {m n : Nat}
    (h : start ++ toString m ++ "-" ++ s ++ tail = start ++ toString n ++ "-" ++ t ++ tail) :
    m = n ∧ s = t := by
  have hs := (String.append_left_inj tail).mp h
  have hlist := congrArg String.toList hs
  simp only [String.toList_append, List.append_assoc] at hlist
  have hdash : "-".toList = ['-'] := rfl
  have hdigits : ∀ n : Nat, (toString n).toList = Nat.toDigits 10 n :=
    fun n => String.toList_ofList ..
  rw [hdash, hdigits, hdigits] at hlist
  obtain ⟨rfl, hrest⟩ := natural_read (stops_dash _) (stops_dash _) (List.append_cancel_left hlist)
  exact ⟨rfl, String.toList_inj.mp (List.cons.inj hrest).2⟩

theorem archiveName_inj {a b : Resources.Archive} (h : archiveName a = archiveName b) : a = b := by
  obtain ⟨hgeneration, hsha⟩ := numbered_inj h
  cases a
  cases b
  exact Resources.Archive.mk.injEq .. ▸ ⟨hgeneration, hsha⟩

theorem requestArchiveName_inj {a b : Inference.Archive}
    (h : requestArchiveName a = requestArchiveName b) : a = b := by
  obtain ⟨hbatch, hsha⟩ := numbered_inj (m := a.batch.toNat) (n := b.batch.toNat) h
  cases a
  cases b
  exact Inference.Archive.mk.injEq .. ▸ ⟨UInt64.toNat_inj.mp hbatch, hsha⟩

theorem startsWith_numbered (start number hash tail : String) :
    startsWith start (start ++ number ++ "-" ++ hash ++ tail) = true :=
  startsWith_iff.mpr ⟨number ++ "-" ++ hash ++ tail, by simp only [String.append_assoc]⟩

theorem startsWith_archiveName (a : Resources.Archive) :
    startsWith "archive-" (archiveName a) = true := startsWith_numbered ..

theorem startsWith_requestArchiveName (a : Inference.Archive) :
    startsWith "requests-archive-" (requestArchiveName a) = true := startsWith_numbered ..

/-- The five classes of evidence. -/
def isEvidence (name : String) : Bool :=
  startsWith ".archive-retained-" name || startsWith ".archive-stage-" name ||
    startsWith "archive-" name || startsWith ".requests-" name ||
    startsWith "requests-archive-" name

/-- A name that no class starts is in no class. -/
theorem isEvidence_apart {other : String} (h : isEvidence name = true)
    (hother : isEvidence other = false) : name ≠ other := by
  rintro rfl
  rw [h] at hother
  cases hother

theorem not_isRecord_of_isEvidence (h : isEvidence name = true) : isRecord name = false := by
  simp only [isEvidence, Bool.or_eq_true] at h
  rcases h with (((h | h) | h) | h) | h
  · exact not_isRecord_of_startsWith h (by decide) (by decide)
  · exact not_isRecord_of_startsWith h (by decide) (by decide)
  · exact not_isRecord_of_startsWith h (by decide) (by decide)
  · exact not_isRecord_of_startsWith h (by decide) (by decide)
  · exact not_isRecord_of_startsWith h (by decide) (by decide)

theorem startsWith_of_stripPrefix {start rest : String} (h : stripPrefix start name = some rest) :
    startsWith start name = true :=
  startsWith_iff.mpr ⟨rest, stripPrefix_eq_some.mp h⟩

theorem preparation_name {a : Resources.Archive} (h : preparation name = .ok a) :
    ".archive-stage-" ++ archiveName a = name := by
  simp only [preparation, bind_eq_ok, pure_eq_ok, okOr_eq_ok, refuseIf_eq_ok, Bool.or_eq_false_iff,
    bne_eq_false_iff_eq] at h
  obtain ⟨_, -, _, -, -, ⟨-, hname⟩, rfl⟩ := h
  exact hname

theorem stageReference_name {a : Inference.Archive} (h : stageReference name = .ok a) :
    ".requests-stage-" ++ requestArchiveName a = name := by
  simp only [stageReference, bind_eq_ok, pure_eq_ok, okOr_eq_ok, refuseIf_eq_ok,
    Bool.or_eq_false_iff, bne_eq_false_iff_eq] at h
  obtain ⟨_, -, _, -, -, ⟨-, hname⟩, rfl⟩ := h
  exact hname

/-! ## Acceptance -/

theorem accept_isEvidence (h : accept O d l name = .ok ()) : isEvidence name = true := by
  unfold accept at h
  simp only [isEvidence, Bool.or_eq_true]
  split at h
  · rename_i hstrip
    simp [startsWith_of_stripPrefix hstrip]
  · split at h
    · rename_i hstage
      simp [hstage]
    · split at h
      · rename_i hstrip
        simp [startsWith_of_stripPrefix hstrip]
      · split at h
        · rename_i hrequests
          simp only [Bool.or_eq_true] at hrequests
          tauto
        · simp at h

/-- **Accepted evidence is unreferenced.** -/
theorem accept_apart (hgate : openGate O d = .ok gate) (h : accept O d l name = .ok ()) :
    (∀ a ∈ l.archives, archiveName a ≠ name) ∧
      ∀ a ∈ gate.retention.archives, requestArchiveName a ≠ name := by
  have hapart : ∀ {start other : String}, startsWith start name = true →
      startsWith start other = false → startsWith other start = false →
        startsWith other name = false := not_startsWith
  constructor
  · rintro a ha rfl
    have hstart := startsWith_archiveName a
    have hnot : ∀ {other : String}, startsWith "archive-" other = false →
        startsWith other "archive-" = false → startsWith other (archiveName a) = false :=
      not_startsWith hstart
    obtain ⟨rest, hrest⟩ := startsWith_iff.mp hstart
    unfold accept at h
    rw [stripPrefix_of_not (hnot (by decide) (by decide)), @hnot ".archive-stage-"
      (by decide) (by decide), stripPrefix_eq_some.mpr hrest] at h
    simp only [Bool.false_eq_true, if_false, bind_eq_ok, refuseIf_eq_ok] at h
    obtain ⟨b, hb, -, hnew, -⟩ := h
    have hname := preparation_name hb
    have hsame : archiveName b = archiveName a := by
      rw [hrest]
      refine (String.append_right_inj ".archive-stage-").mp (hname.trans ?_)
      rw [← String.append_assoc]
      rfl
    obtain rfl := archiveName_inj hsame
    simp [ha] at hnew
  · rintro a ha rfl
    have hstart := startsWith_requestArchiveName a
    have hnot : ∀ {other : String}, startsWith "requests-archive-" other = false →
        startsWith other "requests-archive-" = false →
          startsWith other (requestArchiveName a) = false :=
      not_startsWith hstart
    obtain ⟨rest, hrest⟩ := startsWith_iff.mp hstart
    unfold accept at h
    rw [stripPrefix_of_not (hnot (by decide) (by decide)), @hnot ".archive-stage-"
      (by decide) (by decide), stripPrefix_of_not (hnot (by decide) (by decide)), hstart,
      Bool.or_true] at h
    simp only [Bool.false_eq_true, if_false, if_true, retentionEvidence, bind_eq_ok] at h
    obtain ⟨g, hg, _, -, _, -, _, -, target, -, _, hselect, -⟩ := h
    obtain rfl := Except.ok.inj (hgate.symm.trans hg)
    unfold selectable at hselect
    rw [stripPrefix_of_not (hnot (by decide) (by decide)), @hnot ".requests-stage-"
      (by decide) (by decide), stripPrefix_eq_some.mpr hrest] at hselect
    simp only [Bool.false_eq_true, if_false, bind_eq_ok, refuseIf_eq_ok] at hselect
    obtain ⟨b, hb, hnew⟩ := hselect
    have hname := stageReference_name hb
    have hsame : requestArchiveName b = requestArchiveName a := by
      rw [hrest]
      refine (String.append_right_inj ".requests-stage-").mp (hname.trans ?_)
      rw [← String.append_assoc]
      rfl
    obtain rfl := requestArchiveName_inj hsame
    simp [ha] at hnew

theorem Pruned.accept (h : Pruned l gate d d') (hgate : Evidence.openGate O d = .ok gate)
    (hname : Same d d' name) (hok : accept O d l name = .ok ()) :
    Evidence.accept O d' l name = .ok () := by
  unfold Evidence.accept at hok ⊢
  split at hok
  · rw [hname.verifyRetained]
    exact hok
  · split at hok
    · rename_i hstage
      rw [if_pos hstage]
      exact hok
    · rename_i hstage
      rw [if_neg hstage]
      split at hok
      · rename_i hstrip
        simp only [bind_eq_ok] at hok ⊢
        obtain ⟨a, ha, u, hu, x, hx, hend⟩ := hok
        have hsame : archiveName a = name := by
          rw [stripPrefix_eq_some.mp hstrip]
          refine (String.append_right_inj ".archive-stage-").mp ((preparation_name ha).trans ?_)
          rw [← String.append_assoc]
          rfl
        exact ⟨a, ha, u, hu, x, (Same.archived (hsame ▸ hname)).trans hx, hend⟩
      · split at hok
        · rename_i hrequests
          rw [if_pos hrequests]
          exact h.retentionEvidence hgate hname hok
        · rename_i hrequests
          rw [if_neg hrequests]
          exact hok

/-! ## Names are short -/

theorem utf8ByteSize_toString_le {n : Nat} (h : n < 2 ^ 64) : (toString n).utf8ByteSize ≤ 20 :=
  sizeBound_nat (by decide) (lt_trans h (by decide))

theorem utf8ByteSize_u64_le (n : UInt64) : (toString n).utf8ByteSize ≤ 20 :=
  utf8ByteSize_toString_le n.toNat_lt

/-- A name of fixed parts, a number and a digest. -/
theorem numbered_short {before start number hash : String} (hnumber : number.utf8ByteSize ≤ 20)
    (hhash : isHash hash = true) (hbefore : before.utf8ByteSize ≤ 50)
    (hstart : start.utf8ByteSize ≤ 50) :
    (before ++ (start ++ number ++ "-" ++ hash ++ ".json")).utf8ByteSize ≤ 200 := by
  have hdash : "-".utf8ByteSize = 1 := rfl
  have hjson : ".json".utf8ByteSize = 5 := rfl
  simp only [String.utf8ByteSize_append, utf8ByteSize_of_isHash hhash, hdash, hjson]
  omega

/-- A name of fixed parts and two digests. -/
theorem retained_short {start suffix x : String} {hash review : String}
    (hname : stripPrefix start name = some suffix) (hsuffix : stripSuffix ".json" suffix = some x)
    (hx : splitOnce '-' x = some (hash, review)) (hhash : isHash hash = true)
    (hreview : isHash review = true) (hstart : start.utf8ByteSize ≤ 30) :
    name.utf8ByteSize ≤ 200 := by
  have hdash : (String.singleton '-').utf8ByteSize = 1 := rfl
  have hjson : ".json".utf8ByteSize = 5 := rfl
  rw [stripPrefix_eq_some.mp hname, stripSuffix_eq_some.mp hsuffix, splitOnce_eq_some hx]
  simp only [String.utf8ByteSize_append, utf8ByteSize_of_isHash hhash,
    utf8ByteSize_of_isHash hreview, hdash, hjson]
  omega

theorem preparation_short {a : Resources.Archive} (h : preparation name = .ok a) :
    name.utf8ByteSize ≤ 200 := by
  have hname := preparation_name h
  simp only [preparation, bind_eq_ok, pure_eq_ok, okOr_eq_ok, refuseIf_eq_ok, Bool.or_eq_false_iff,
    Bool.not_eq_false'] at h
  obtain ⟨parts, -, n, hn, -, ⟨⟨-, hhash⟩, -⟩, rfl⟩ := h
  rw [← hname]
  exact numbered_short (utf8ByteSize_toString_le (parseU64_lt hn)) hhash (by decide) (by decide)

theorem stageReference_short {a : Inference.Archive} (h : stageReference name = .ok a) :
    name.utf8ByteSize ≤ 200 := by
  have hname := stageReference_name h
  simp only [stageReference, bind_eq_ok, pure_eq_ok, okOr_eq_ok, refuseIf_eq_ok,
    Bool.or_eq_false_iff, Bool.not_eq_false'] at h
  obtain ⟨parts, -, n, -, -, ⟨⟨-, hhash⟩, -⟩, ha⟩ := h
  have hsha : isHash a.sha256 = true := by
    rw [← ha]
    exact hhash
  rw [← hname]
  exact numbered_short (utf8ByteSize_u64_le a.batch) hsha (by decide) (by decide)

/-- A name is no longer than one it is the end of. -/
theorem short_of_append {start rest : String} {n : Nat} (h : (start ++ rest).utf8ByteSize ≤ n)
    (hname : stripPrefix "archive-" name = some rest ∨
      stripPrefix "requests-archive-" name = some rest)
    (hstart : 17 ≤ start.utf8ByteSize) : name.utf8ByteSize ≤ n := by
  rw [String.utf8ByteSize_append] at h
  have h8 : "archive-".utf8ByteSize = 8 := rfl
  have h17 : "requests-archive-".utf8ByteSize = 17 := rfl
  rcases hname with hname | hname
  · rw [stripPrefix_eq_some.mp hname, String.utf8ByteSize_append, h8]
    omega
  · rw [stripPrefix_eq_some.mp hname, String.utf8ByteSize_append, h17]
    omega

theorem selectable_short {target : Identity} (h : selectable gate target name = .ok ()) :
    name.utf8ByteSize ≤ 200 := by
  unfold selectable at h
  split at h
  · rename_i suffix hstrip
    simp only [bind_eq_ok, okOr_eq_ok, Option.bind_eq_some_iff, refuseIf_eq_ok,
      Bool.or_eq_false_iff, Bool.not_eq_false'] at h
    obtain ⟨parts, ⟨x, hx, hparts⟩, ⟨hhash, hreview⟩, -⟩ := h
    exact retained_short hstrip hx hparts hhash hreview (by decide)
  · split at h
    · simp only [bind_eq_ok] at h
      obtain ⟨a, ha, -⟩ := h
      exact stageReference_short ha
    · split at h
      · rename_i hstrip
        simp only [bind_eq_ok] at h
        obtain ⟨a, ha, -⟩ := h
        exact short_of_append (stageReference_short ha) (.inr hstrip) (by decide)
      · simp at h

/-- **Accepted names are short.** -/
theorem accept_short (h : accept O d l name = .ok ()) : name.utf8ByteSize ≤ 200 := by
  unfold accept at h
  split at h
  · rename_i suffix hstrip
    simp only [verifyRetained, bind_eq_ok, okOr_eq_ok, Option.bind_eq_some_iff, refuseIf_eq_ok,
      Bool.or_eq_false_iff, Bool.not_eq_false'] at h
    obtain ⟨parts, ⟨x, hx, hparts⟩, -, ⟨hhash, hreview⟩, -⟩ := h
    exact retained_short hstrip hx hparts hhash hreview (by decide)
  · split at h
    · simp only [bind_eq_ok] at h
      obtain ⟨a, ha, -⟩ := h
      exact preparation_short ha
    · split at h
      · rename_i hstrip
        simp only [bind_eq_ok] at h
        obtain ⟨a, ha, -⟩ := h
        exact short_of_append (preparation_short ha) (.inl hstrip) (by decide)
      · split at h
        · simp only [retentionEvidence, bind_eq_ok] at h
          obtain ⟨g, -, _, -, _, -, _, -, target, -, _, hselect, -⟩ := h
          exact selectable_short hselect
        · simp at h

/-! ## The plan -/

/-- What the loop of `deletion_plan` makes of the names. -/
theorem planLoop_eq_ok : ∀ {names : List String} {t t' : Table Identity},
    names.foldlM (planStep O d l) t = .ok t' →
      names.Nodup ∧ (∀ n ∈ names, n ∉ t ∧ accept O d l n = .ok ()) ∧
        (∀ (n : String) i, t'[n]? = some i ↔
          t[n]? = some i ∨ (n ∈ names ∧ identity O d n = .ok i)) ∧
        t'.size = t.size + names.length ∧ ∀ n ∈ names, ∃ i, identity O d n = .ok i
  | [], t, t', h => by
    obtain rfl : t = t' := pure_eq_ok.mp h
    simp
  | n :: names, t, t', h => by
    simp only [List.foldlM_cons, bind_eq_ok, planStep, refuseIf_eq_ok, pure_eq_ok] at h
    obtain ⟨u, ⟨_, hnew, _, haccept, i, hi, rfl⟩, hrest⟩ := h
    have hfresh : n ∉ t := fun hmem => by
      rw [Std.ExtTreeMap.mem_iff_contains, hnew] at hmem
      cases hmem
    obtain ⟨hnodup, haccepts, hget, hsize, hids⟩ := planLoop_eq_ok hrest
    have hmem : ∀ m, m ∈ t.insert n i ↔ n = m ∨ m ∈ t := fun m => by
      rw [Std.ExtTreeMap.mem_insert, Std.compare_eq_iff_eq]
    have hnot : n ∉ names := fun hin => (haccepts n hin).1 ((hmem n).mpr (.inl rfl))
    refine ⟨List.nodup_cons.mpr ⟨hnot, hnodup⟩, List.forall_mem_cons.mpr ⟨⟨hfresh, haccept⟩,
      fun m hm => ⟨fun hin => (haccepts m hm).1 ((hmem m).mpr (.inr hin)), (haccepts m hm).2⟩⟩,
      fun m j => ?_, ?_, List.forall_mem_cons.mpr ⟨⟨i, hi⟩, hids⟩⟩
    · rw [hget, Table.get_insert, List.mem_cons]
      by_cases hm : n = m
      · subst hm
        rw [if_pos rfl, hi, Table.not_mem_iff_get.mp hfresh]
        simp [hnot]
      · rw [if_neg hm]
        simp [Ne.symm hm]
    · rw [hsize, Std.ExtTreeMap.size_insert, if_neg (by rw [hnew]; exact Bool.false_ne_true),
        List.length_cons]
      omega

theorem planLoop_complete : ∀ {names : List String} {t : Table Identity}, names.Nodup →
    (∀ n ∈ names, n ∉ t ∧ accept O d l n = .ok () ∧ ∃ i, identity O d n = .ok i) →
      ∃ t', names.foldlM (planStep O d l) t = .ok t'
  | [], t, _, _ => ⟨t, rfl⟩
  | n :: names, t, hnodup, h => by
    obtain ⟨hnot, hnodup'⟩ := List.nodup_cons.mp hnodup
    obtain ⟨⟨hfresh, haccept, i, hi⟩, hrest⟩ := List.forall_mem_cons.mp h
    obtain ⟨t', ht'⟩ := planLoop_complete (t := t.insert n i) hnodup' fun m hm => by
      obtain ⟨hm', hok⟩ := hrest m hm
      refine ⟨fun hin => ?_, hok⟩
      rw [Std.ExtTreeMap.mem_insert, Std.compare_eq_iff_eq] at hin
      rcases hin with rfl | hin
      · exact hnot hm
      · exact hm' hin
    refine ⟨t', ?_⟩
    have hnew : t.contains n = false := by
      rw [← Bool.not_eq_true, ← Std.ExtTreeMap.mem_iff_contains]
      exact hfresh
    simp only [List.foldlM_cons, bind_eq_ok, planStep, refuseIf_eq_ok, pure_eq_ok]
    exact ⟨t.insert n i, ⟨(), hnew, (), haccept, i, hi, rfl⟩, ht'⟩

/-- **What `deletion_plan` has checked.** -/
structure Planned (O : Outside) (d : Directory) (names : List String) (l : Ledger) (gate : Gate) :
    Prop where
  few : names ≠ [] ∧ names.length ≤ 16
  ledger : readLedger d = .ok l
  released : l.generation ≠ 0 ∧ unreleased l = false
  archives : verifyArchives O l d = .ok ()
  gate : openGate O d = .ok gate
  idle : retentionIdle O d = .ok ()
  requests : ∃ i, identity O d "requests.json" = .ok i
  nodup : names.Nodup
  accepted : ∀ n ∈ names, accept O d l n = .ok ()
  found : ∀ n ∈ names, ∃ i, identity O d n = .ok i
  ledgerIdentity : ∃ i, identity O d "ledger.json" = .ok i

/-- **What a plan says** of the directory it was made in. -/
structure Describes (O : Outside) (d : Directory) (names : List String) (p : DeletionPlan) (l : Ledger) :
    Prop where
  schemaVersion : p.schemaVersion = 1
  generation : p.generation = l.generation
  directory : p.directory = d.identity
  ledger : identity O d "ledger.json" = .ok p.ledger
  requests : identity O d "requests.json" = .ok p.requests
  size : p.files.size = names.length
  files : ∀ (n : String) i, p.files[n]? = some i ↔ n ∈ names ∧ identity O d n = .ok i

theorem deletionPlan_eq_ok {names : List String} {p : DeletionPlan}
    (h : deletionPlan O d names = .ok p) :
    ∃ l gate, Planned O d names l gate ∧ Describes O d names p l := by
  simp only [deletionPlan, bind_eq_ok, pure_eq_ok, refuseIf_eq_ok, Bool.or_eq_false_iff,
    beq_eq_false_iff_ne, decide_eq_false_iff_not, not_lt, List.isEmpty_eq_false_iff] at h
  obtain ⟨_, hfew, l, hl, _, hreleased, _, harchives, _, hidle, requests, hr, files, hloop, ledger,
    hledger, rfl⟩ := h
  obtain ⟨hnodup, haccept, hget, hsize, hfound⟩ := planLoop_eq_ok hloop
  have hidle' := hidle
  simp only [retentionIdle, bind_eq_ok] at hidle'
  obtain ⟨gate, hgate, -⟩ := hidle'
  refine ⟨l, gate, ⟨hfew, hl, hreleased, harchives, hgate, hidle, ⟨_, hr⟩, hnodup,
    fun n hn => (haccept n hn).2, hfound, ⟨_, hledger⟩⟩, ⟨rfl, rfl, rfl, hledger, hr, ?_,
    fun n i => ?_⟩⟩
  · rw [hsize, Std.ExtTreeMap.size_empty, Nat.zero_add]
  · rw [hget, Std.ExtTreeMap.getElem?_empty]
    simp

theorem Planned.deletionPlan {names : List String} (h : Planned O d names l gate) :
    ∃ p, Evidence.deletionPlan O d names = .ok p := by
  obtain ⟨requests, hr⟩ := h.requests
  obtain ⟨ledger, hledger⟩ := h.ledgerIdentity
  obtain ⟨files, hfiles⟩ := planLoop_complete (O := O) (d := d) (l := l) (t := ∅) h.nodup
    fun n hn => ⟨Std.ExtTreeMap.not_mem_empty, h.accepted n hn, h.found n hn⟩
  simp only [Evidence.deletionPlan, bind_eq_ok, pure_eq_ok, refuseIf_eq_ok, Bool.or_eq_false_iff,
    beq_eq_false_iff_ne, decide_eq_false_iff_not, not_lt, List.isEmpty_eq_false_iff]
  exact ⟨_, (), h.few, l, h.ledger, (), h.released, (), h.archives, (), h.idle, requests, hr, files,
    hfiles, ledger, hledger, rfl⟩

/-- **Evidence that was accepted and still exists is accepted.** -/
theorem Pruned.planned {names kept : List String} (hp : Pruned l gate d d')
    (h : Planned O d names l gate) (hkept : kept.Sublist names) (hne : kept ≠ [])
    (hexists : ∀ n ∈ kept, n ∈ d'.files) : Planned O d' kept l gate := by
  have hsame : ∀ n ∈ kept, Same d d' n := fun n hn =>
    hp.kept n (not_isRecord_of_isEvidence (accept_isEvidence (h.accepted n (hkept.subset hn))))
      (hexists n hn)
  obtain ⟨requests, hr⟩ := h.requests
  obtain ⟨ledger, hledger⟩ := h.ledgerIdentity
  refine ⟨⟨hne, hkept.length_le.trans h.few.2⟩, hp.ledger.readLedger.trans h.ledger, h.released,
    hp.verifyArchives h.archives, hp.openGate h.gate, hp.retentionIdle h.gate h.idle,
    ⟨requests, hp.requests.identity.trans hr⟩, h.nodup.sublist hkept,
    fun n hn => hp.accept h.gate (hsame n hn) (h.accepted n (hkept.subset hn)), fun n hn => ?_,
    ⟨ledger, hp.ledger.identity.trans hledger⟩⟩
  obtain ⟨i, hi⟩ := h.found n (hkept.subset hn)
  exact ⟨i, (hsame n hn).identity.trans hi⟩

end LumaOS.Evidence
