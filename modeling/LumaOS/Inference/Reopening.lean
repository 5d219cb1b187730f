import LumaOS.Inference.Runs
import LumaOS.Inference.Snapshot

/-!
# What the gate holds can be reopened

The gate's methods and `validate_records` each state what a record may look like. `Record.Durable`
says what the validator accepts, record by record, and every method keeps it (`call_durable`), given
that `begin` is called with what its callers hand it: an observed caller, a token of the ledger, a
context of 2048 tokens and the id of a profile.

* `validateRecords_eq_ok`: the validator accepts exactly the records of a durable gate.
* `Gate.Durable.reopens`: the journal of a durable gate decodes to what the gate holds.

**`journal_reopens`** says so of every gate along a run. The gate itself does not look at the
profile's text, and takes one that its validator refuses (`unlabelled_profile`).
-/

namespace LumaOS.Inference

open LumaOS.Base LumaOS.Text LumaOS.Json LumaOS.Governance
open LumaOS.Resources (Token Ledger)

/-! ## What a call is given -/

/-- The text of a boot id or of a profile's id. -/
def labelled (s : String) : Bool :=
  !s.isEmpty && s.utf8ByteSize ≤ 128 && s.toList.all fun c => c.isAlphanum || c == '-'

/-- A caller as `Caller::observe_supported` makes it of a live peer. -/
structure Caller.Observed (c : Caller) : Prop where
  pid : c.pid ≠ 0
  start : c.start ≠ 0
  boot : labelled c.boot = true
  uid : c.uid = 0 ∨ c.uid = 990

/-- A token as the ledger issues it. -/
structure Issued (t : Token) : Prop where
  leaseId : nonceValid t.leaseId = true
  managerEpoch : nonceValid t.managerEpoch = true
  generation : t.generation ≠ 0
  word : t.generation < 2 ^ 64

/-- What a `begin` is called with: its context, its caller and the worker it names. -/
def Op.Supported : Op → Prop
  | .begin caller _ (.begin _ worker _ _ _ _) context _ =>
    context = 2048 ∧ caller.Observed ∧ Issued worker
  | _ => True

/-- A `begin` names a profile that a catalog could hold. -/
def Op.Labelled : Op → Prop
  | .begin _ _ (.begin _ _ profile _ _ _) _ _ => labelled profile = true
  | _ => True

/-! ## Durable records -/

/-- The validator accepts the record, and its worker's generation is a `u64`. -/
structure Record.Durable (r : Record) : Prop where
  product : r.checkProduct = .ok ()
  nonce : nonceValid r.nonce = true
  identified : r.identified = true
  consistent : r.consistent = true
  word : r.worker.generation < 2 ^ 64

/-- The origin and the archives of a journal that decodes. -/
structure Retention.Durable (r : Retention) : Prop where
  origin : r.origin.wellFormed = true
  archives : chained r.archives = true
  limit : r.archives.length ≤ maxArchives

/-- A gate as `Gate::open` leaves it, and one that can be opened again. -/
structure Gate.Durable (g : Gate) : Prop where
  count : g.records.length ≤ maxReceipts
  records : ∀ r ∈ g.records, r.Durable
  retention : g.retention.Durable

theorem validateRecord_eq_ok {acc acc' : Names × Nat} {r : Record} :
    validateRecord acc r = .ok acc' ↔
      (r.checkProduct = .ok () ∧ nonceValid r.nonce = true ∧ r.identified = true ∧
        r.consistent = true) ∧ r.nonce ∉ acc.1 ∧
      acc' = (acc.1.insert r.nonce, acc.2 + if r.terminal then 0 else 1) := by
  simp only [validateRecord, bind_eq_ok, refuseIf_eq_ok, pure_eq_ok, Bool.or_eq_false_iff,
    Bool.not_eq_false', Std.ExtTreeSet.mem_iff_contains, Bool.not_eq_true]
  constructor
  · rintro ⟨_, hproduct, _, ⟨⟨hnonce, hfresh⟩, hidentified⟩, _, hconsistent, rfl⟩
    exact ⟨⟨hproduct, hnonce, hidentified, hconsistent⟩, hfresh, rfl⟩
  · rintro ⟨⟨hproduct, hnonce, hidentified, hconsistent⟩, hfresh, rfl⟩
    exact ⟨(), hproduct, (), ⟨⟨hnonce, hfresh⟩, hidentified⟩, (), hconsistent, rfl⟩

/-- The loop of `validate_records`: the nonces seen so far are fresh, and the outstanding records
are counted. -/
theorem validateLoop_eq_ok {records : List Record} : ∀ {acc acc' : Names × Nat},
    records.foldlM validateRecord acc = .ok acc' ↔
      (∀ r ∈ records, r.checkProduct = .ok () ∧ nonceValid r.nonce = true ∧
        r.identified = true ∧ r.consistent = true) ∧
      (∀ r ∈ records, r.nonce ∉ acc.1) ∧ (records.map Record.nonce).Nodup ∧
      acc' = ((records.map Record.nonce).foldl (fun s n => s.insert n) acc.1,
        acc.2 + records.countP Record.outstanding) := by
  induction records with
  | nil =>
    intro acc acc'
    rw [List.foldlM_nil, pure_eq_ok]
    refine ⟨fun h => ⟨?_, ?_, List.nodup_nil, h.symm⟩, fun h => h.2.2.2.symm⟩
    all_goals exact fun r hr => absurd hr List.not_mem_nil
  | cons r rest ih =>
    intro acc acc'
    simp only [List.foldlM_cons, bind_eq_ok, validateRecord_eq_ok, ih, List.forall_mem_cons,
      List.map_cons, List.nodup_cons, List.foldl_cons, List.countP_cons]
    have hcount : (if r.outstanding = true then 1 else 0) = if r.terminal = true then 0 else 1 := by
      rw [outstanding_eq_not_terminal]
      cases r.terminal <;> rfl
    constructor
    · rintro ⟨_, ⟨hr, hfresh, rfl⟩, hrest, hfreshes, hnodup, rfl⟩
      have hrests : ∀ x ∈ rest, x.nonce ∉ acc.1 :=
        fun x hx hmem => hfreshes x hx (Names.mem_insert.mpr (.inr hmem))
      refine ⟨⟨hr, hrest⟩, ⟨hfresh, hrests⟩, ⟨fun hmem => ?_, hnodup⟩, ?_⟩
      · obtain ⟨x, hx, hnonce⟩ := List.mem_map.mp hmem
        exact hfreshes x hx (Names.mem_insert.mpr (.inl hnonce.symm))
      · rw [hcount, Nat.add_assoc, Nat.add_comm (List.countP _ _)]
    · rintro ⟨⟨hr, hrest⟩, ⟨hfresh, hfreshes⟩, ⟨hhead, hnodup⟩, rfl⟩
      refine ⟨_, ⟨hr, hfresh, rfl⟩, hrest, fun x hx hmem => ?_, hnodup, ?_⟩
      · rcases Names.mem_insert.mp hmem with hmem | hmem
        · exact hhead (List.mem_map.mpr ⟨x, hx, hmem.symm⟩)
        · exact hfreshes x hx hmem
      · rw [hcount, Nat.add_assoc, Nat.add_comm (List.countP _ _)]

/-- **What the validator accepts.** -/
theorem validateRecords_eq_ok {records : List Record} {nonces : Names} :
    validateRecords records = .ok nonces ↔
      records.length ≤ maxReceipts ∧
      (∀ r ∈ records, r.checkProduct = .ok () ∧ nonceValid r.nonce = true ∧
        r.identified = true ∧ r.consistent = true) ∧
      (records.map Record.nonce).Nodup ∧ AtMostOne Record.outstanding records ∧
      nonces = (records.map Record.nonce).foldl (fun s n => s.insert n) ∅ := by
  simp only [validateRecords, bind_eq_ok, refuseIf_eq_ok, pure_eq_ok, validateLoop_eq_ok,
    decide_eq_false_iff_not, Nat.not_lt, gt_iff_lt, atMostOne_iff_countP]
  constructor
  · rintro ⟨_, hcount, _, ⟨hall, -, hnodup, rfl⟩, _, hone, rfl⟩
    rw [Nat.zero_add] at hone
    exact ⟨hcount, hall, hnodup, hone, rfl⟩
  · rintro ⟨hcount, hall, hnodup, hone, rfl⟩
    refine ⟨(), hcount, _, ⟨hall, fun r _ => Std.ExtTreeSet.not_mem_empty, hnodup, rfl⟩, (), ?_,
      rfl⟩
    rwa [Nat.zero_add]

/-! ## Reopening -/

/-- What the gate's `bytes` writes when its records are valid: only an uncertain publication and the
journal's capacity refuse it. -/
def Gate.written (g : Gate) : Result Bytes := do
  g.retention.check
  refuseIf ((toVec g.snapshot).length > maxBytes) "private inference journal capacity exhausted"
  pure (toVec g.snapshot)

/-- What the gate holds passes its validator, can be written as far as its records go, and decodes
from what is written, the pins apart. -/
structure Gate.Reopens (g : Gate) : Prop where
  valid : ∃ nonces, validateRecords g.records = .ok nonces
  bytes : g.bytes = g.written
  decoded : ∀ bytes, g.bytes = .ok bytes → decode bytes =
    .ok ⟨1, g.retention.origin, g.retention.archives, g.records.map Record.unpinned⟩

theorem Record.Durable.checks {r : Record} (h : r.Durable) : r.checkProduct = .ok () ∧
    nonceValid r.nonce = true ∧ r.identified = true ∧ r.consistent = true :=
  ⟨h.product, h.nonce, h.identified, h.consistent⟩

/-- What `bytes` checks between the validator and the writing: no nonce is a retired one. -/
theorem retired_nonces {g : Gate} (h : ∀ r ∈ g.records, r.nonce ∉ g.retention.retired) :
    (((g.records.map Record.nonce).foldl (fun s n => s.insert n) (∅ : Names)).toList.any
      fun n => g.retention.retired.contains n) = false := by
  rw [List.any_eq_false]
  intro n hn
  rw [Names.mem_toList, Names.mem_insertAll] at hn
  rcases hn with hn | hn
  · obtain ⟨r, hr, rfl⟩ := List.mem_map.mp hn
    rw [← Std.ExtTreeSet.mem_iff_contains]
    exact h r hr
  · exact absurd hn Std.ExtTreeSet.not_mem_empty

/-- **A durable gate reopens.** -/
theorem Gate.Durable.reopens {g : Gate} (h : g.Durable) (hinv : g.Inv) : g.Reopens := by
  have hvalid := validateRecords_eq_ok.mpr
    ⟨h.count, fun r hr => (h.records r hr).checks, hinv.nonces, hinv.one, rfl⟩
  have hbytes : g.bytes = g.written := by
    refine congrArg (g.retention.check >>= ·) (funext fun _ => ?_)
    rw [hvalid]
    change (refuseIf _ _ >>= fun _ => _) = _
    rw [retired_nonces hinv.retired]
    rfl
  refine ⟨⟨_, hvalid⟩, hbytes, fun bytes hwrite => ?_⟩
  rw [hbytes] at hwrite
  simp only [Gate.written, bind_eq_ok, pure_eq_ok] at hwrite
  obtain ⟨_, -, _, -, rfl⟩ := hwrite
  let s : Snapshot := ⟨1, g.retention.origin, g.retention.archives, g.records⟩
  have hread : decodeAs Snapshot.ofJson (toVec g.snapshot) =
      some { s with records := g.records.map Record.unpinned } := by
    change decodeAs Snapshot.ofJson (toVec s.toJson) = _
    rw [decodeAs_toVec s.depth_toJson, Snapshot.ofJson_toJson fun r hr => (h.records r hr).word]
  have hcanonical : Snapshot.toJson { s with records := g.records.map Record.unpinned } =
      g.snapshot := by
    simp only [Snapshot.toJson, List.map_map, Function.comp_def, Record.toJson_unpinned]
    rfl
  simp only [decode, bind_eq_ok, okOr_eq_ok, refuseIf_eq_ok, pure_eq_ok]
  refine ⟨_, hread, (), ?_, (), congrArg not h.retention.origin, (),
    congrArg not h.retention.archives, _, (validateRecords_unpinned _).trans hvalid, rfl⟩
  rw [hcanonical]
  simpa [s] using h.retention.limit

/-! ## What a call keeps -/

section Moves

variable {r : Record}

/-- The budget that `admit` checks is the one that the validator asks for. -/
theorem fits_of_admission {promptTokens : UInt64}
    (h : ((u64Add promptTokens r.limit).all fun sum => sum > r.context) = false) :
    ((u64Add promptTokens r.limit).any fun v => v ≤ r.context) = true := by
  cases hsum : u64Add promptTokens r.limit with
  | none =>
    rw [hsum] at h
    cases h
  | some sum =>
    rw [hsum] at h
    simpa using h

theorem Record.Durable.admitted (h : r.Durable) (hphase : r.phase = .preparing)
    {promptTokens : UInt64} {tokenDigest : String} (hprompt : promptTokens ≠ 0)
    (hdigest : digestValid tokenDigest = true)
    (hbudget : ((u64Add promptTokens r.limit).all fun sum => sum > r.context) = false) :
    Record.Durable
      { r with prompt := some promptTokens, tokenDigest := some tokenDigest, phase := .admitted } := by
  refine ⟨h.product, h.nonce, h.identified, ?_, h.word⟩
  have hconsistent := h.consistent
  have hpositive : promptTokens > 0 := UInt64.pos_iff_ne_zero.mpr hprompt
  simp only [Record.consistent, hphase, Bool.and_eq_true] at hconsistent
  simp only [Record.consistent, Option.any_some, hpositive, fits_of_admission hbudget, hdigest,
    decide_true, Bool.and_self, hconsistent.2]

theorem Record.Durable.completed (h : r.Durable) (hphase : r.phase = .admitted)
    {outputTokens : UInt64} {resultDigest : String} (houtput : outputTokens ≠ 0)
    (hlimit : outputTokens ≤ r.limit) (hdigest : digestValid resultDigest = true) :
    Record.Durable
      { r with
        output := some outputTokens
        resultDigest := some resultDigest
        phase := .completed
        pin := none } := by
  refine ⟨h.product, h.nonce, h.identified, ?_, h.word⟩
  have hconsistent := h.consistent
  have hpositive : outputTokens > 0 := UInt64.pos_iff_ne_zero.mpr houtput
  simp only [Record.consistent, hphase, Bool.and_eq_true] at hconsistent
  simp only [Record.consistent, Option.any_some, hpositive, hlimit, hdigest, decide_true,
    Bool.and_self, hconsistent.1]

theorem Record.Durable.drained (h : r.Durable) (hphase : r.phase = .preparing ∨ r.phase = .admitted) :
    Record.Durable { r with phase := .draining } := by
  refine ⟨h.product, h.nonce, h.identified, ?_, h.word⟩
  have hconsistent := h.consistent
  rcases hphase with hphase | hphase <;>
    simp only [Record.consistent, hphase, Bool.and_eq_true] at hconsistent <;>
    simp [Record.consistent, hconsistent]

theorem Record.Durable.released (h : r.Durable) (hphase : r.outstanding = true) :
    Record.Durable { r with phase := .released, pin := none } := by
  refine ⟨h.product, h.nonce, h.identified, ?_, h.word⟩
  have hconsistent := h.consistent
  rcases outstanding_iff.mp hphase with hphase | hphase | hphase <;>
    simp only [Record.consistent, hphase, Bool.and_eq_true] at hconsistent <;>
    simp_all [Record.consistent]

end Moves

section Calls

variable {g : Gate}

/-- The record that a supported `begin` opens. -/
theorem durable_begun {caller : Caller} {pin : Pin} {nonce : String} {worker : Token}
    {profile inputDigest : String} {maxOutputTokens requestDeadline time : UInt64}
    (hcaller : caller.Observed) (hworker : Issued worker) (hprofile : labelled profile = true)
    (hbudget : (!nonceValid nonce || !digestValid inputDigest || maxOutputTokens == 0 ||
      decide (maxOutputTokens > maxOutput) || decide (maxOutputTokens ≥ 2048) ||
      decide (requestDeadline ≤ time) || decide (requestDeadline - time > maxRequestMs)) = false) :
    Record.Durable
      { caller
        pin := some pin
        nonce
        worker
        profile
        limit := maxOutputTokens
        context := 2048
        untilMs := requestDeadline
        phase := .preparing
        prompt := none
        tokenDigest := none
        output := none
        resultDigest := none
        inputDigest := some inputDigest
        product := none } := by
  simp only [Bool.or_eq_false_iff, Bool.not_eq_false', decide_eq_false_iff_not, beq_eq_false_iff_ne,
    gt_iff_lt, UInt64.not_lt, UInt64.not_le] at hbudget
  obtain ⟨⟨⟨⟨⟨⟨hnonce, hinput⟩, hzero⟩, hlimit⟩, -⟩, hdeadline⟩, -⟩ := hbudget
  have hboot := hcaller.boot
  have huntil : requestDeadline ≠ 0 := by
    rintro rfl
    exact UInt64.not_lt_zero hdeadline
  simp only [labelled, Bool.and_eq_true] at hboot hprofile
  refine ⟨rfl, hnonce, ?_, rfl, hworker.word⟩
  rcases hcaller.uid with huid | huid <;>
    simp [Record.identified, hworker.leaseId, hworker.managerEpoch, hworker.generation, hcaller.pid,
      hcaller.start, hboot, hprofile, hzero, hlimit, hinput, huntil, huid]

/-- Records that are moved one by one. -/
theorem Gate.Durable.moved (hg : g.Durable) {records : List Record}
    (h : List.Forall₂ (fun r r' => r.Durable → r'.Durable) g.records records) :
    Gate.Durable { g with records } := by
  refine ⟨h.length_eq ▸ hg.count, fun r' hr' => ?_, hg.retention⟩
  obtain ⟨r, hr, hmove⟩ := exists_mem_of_forall₂ h r' hr'
  exact hmove (hg.records r hr)

/-- A write at the record found. -/
theorem Gate.Durable.write (hg : g.Durable) {index : Nat} {r r' : Record}
    (hr : g.records[index]? = some r) (h : r.Durable → r'.Durable) :
    (g.write index r').Durable := by
  refine hg.moved (forall₂_modify (fun _ => id) fun x hx => ?_)
  rw [hr] at hx
  cases hx
  exact h

/-- A call that hands on a method's receipt. -/
theorem durable_of_receipt {m : Mut Gate Value} (h : m.Yields g fun _ g' => g'.Durable) :
    (m >>= fun value => pure (Reply.receipt value)).Yields g fun _ g' => g'.Durable := by
  refine Mut.yields_bind (h.mono fun r g' hr => ?_)
  cases r with
  | error e => exact hr
  | ok value => exact hr

variable (hg : g.Durable)

include hg

theorem begin_durable (sha256 : Bytes → Bytes) (caller : Caller) (pin : Pin) (message : Message)
    (context time : UInt64) (hsupported : (Op.begin caller pin message context time).Supported)
    (hlabelled : (Op.begin caller pin message context time).Labelled) :
    ((Op.begin caller pin message context time).call sha256).Yields g
      fun _ g' => g'.Durable := by
  refine durable_of_receipt ?_
  unfold Gate.begin
  cases message with
  | begin nonce worker profile inputDigest maxOutputTokens requestDeadline =>
    obtain ⟨rfl, hcaller, hworker⟩ := hsupported
    refine Mut.yields_bind_get ?_
    refine Mut.yields_bind_lift (fun _ _ => hg) fun _ _ => ?_
    refine Mut.yields_bind_lift (fun _ _ => hg) fun _ hbudget => ?_
    split
    · exact Mut.yields_bind_lift (fun _ _ => hg) fun _ _ => Mut.yields_pure hg
    · refine Mut.yields_bind_lift (fun _ _ => hg) fun _ hfree => ?_
      refine Mut.yields_bind_set (Mut.yields_pure ?_)
      simp only [refuseIf_eq_ok, Bool.or_eq_false_iff, decide_eq_false_iff_not, ge_iff_le,
        Nat.not_le] at hfree
      refine ⟨?_, fun r hr => ?_, hg.retention⟩
      · rw [List.length_append, List.length_singleton]
        exact hfree.1.2
      · rcases List.mem_append.mp hr with hr | hr
        · exact hg.records r hr
        · rw [List.mem_singleton.mp hr]
          exact durable_begun hcaller hworker hlabelled (refuseIf_eq_ok.mp hbudget)
  | admitPrompt => exact hg
  | finish => exact hg
  | cancel => exact hg

theorem admitPrompt_durable (sha256 : Bytes → Bytes) (caller : Caller) (message : Message)
    (time : UInt64) : ((Op.admitPrompt caller message time).call sha256).Yields g
      fun _ g' => g'.Durable := by
  refine durable_of_receipt ?_
  unfold Gate.admitPrompt
  cases message with
  | admitPrompt nonce worker promptTokens tokenDigest =>
    refine Mut.yields_bind_get ?_
    refine Mut.yields_bind_lift (fun _ _ => hg) fun found hfound => ?_
    obtain ⟨hrecord, -⟩ := record_eq_ok hfound
    refine Mut.yields_bind_lift (fun _ _ => hg) fun _ hbudget => ?_
    split
    · exact Mut.yields_bind_lift (fun _ _ => hg) fun _ _ => hg
    · refine Mut.yields_bind_lift (fun _ _ => hg) fun _ hphase => ?_
      rw [refuseIf_eq_ok, bne_eq_false_iff_eq] at hphase
      simp only [refuseIf_eq_ok, Bool.or_eq_false_iff, beq_eq_false_iff_ne,
        Bool.not_eq_false'] at hbudget
      obtain ⟨⟨⟨-, hprompt⟩, hdigest⟩, hfits⟩ := hbudget
      refine Mut.yields_bind_set (Mut.yields_pure ?_)
      exact hg.write hrecord fun h => h.admitted hphase hprompt hdigest hfits
  | begin => exact hg
  | finish => exact hg
  | cancel => exact hg

theorem finish_durable (sha256 : Bytes → Bytes) (caller : Caller) (message : Message)
    (time : UInt64) : ((Op.finish caller message time).call sha256).Yields g
      fun _ g' => g'.Durable := by
  refine durable_of_receipt ?_
  unfold Gate.finish
  cases message with
  | finish nonce worker promptTokens outputTokens resultDigest =>
    refine Mut.yields_bind_get ?_
    refine Mut.yields_bind_lift (fun _ _ => hg) fun found hfound => ?_
    obtain ⟨hrecord, -⟩ := record_eq_ok hfound
    refine Mut.yields_bind_lift (fun _ _ => hg) fun _ hbudget => ?_
    split
    · exact Mut.yields_bind_lift (fun _ _ => hg) fun _ _ => hg
    · refine Mut.yields_bind_lift (fun _ _ => hg) fun _ hphase => ?_
      rw [refuseIf_eq_ok, bne_eq_false_iff_eq] at hphase
      simp only [refuseIf_eq_ok, Bool.or_eq_false_iff, beq_eq_false_iff_ne, Bool.not_eq_false',
        decide_eq_false_iff_not, gt_iff_lt, UInt64.not_lt] at hbudget
      obtain ⟨⟨⟨-, houtput⟩, hlimit⟩, hdigest⟩ := hbudget
      refine Mut.yields_bind_set (Mut.yields_pure ?_)
      exact hg.write hrecord fun h => h.completed hphase houtput hlimit hdigest
  | begin => exact hg
  | admitPrompt => exact hg
  | cancel => exact hg

theorem cancel_durable (sha256 : Bytes → Bytes) (caller : Caller) (nonce : String)
    (worker : Token) : ((Op.cancel caller nonce worker).call sha256).Yields g
      fun _ g' => g'.Durable := by
  refine durable_of_receipt (Mut.yields_bind_get ?_)
  refine Mut.yields_bind_lift (fun _ _ => hg) fun found hfound => ?_
  obtain ⟨hrecord, -⟩ := record_eq_ok hfound
  dsimp only
  split
  · rename_i hphase
    exact Mut.yields_bind_set (Mut.yields_pure (hg.write hrecord fun h => h.drained hphase))
  · exact Mut.yields_pure hg

end Calls

/-! ### Archiving -/

theorem Marked.durable {g g' : Gate} (h : Marked g g') (hg : g.Durable) : g'.Durable := by
  obtain ⟨horigin, harchives, hlimit⟩ := hg.retention
  refine ⟨h.records ▸ hg.count, h.records ▸ hg.records, ⟨?_, ?_, ?_⟩⟩
  · rwa [h.origin]
  · rwa [h.archives]
  · rwa [h.archives]

/-- The next archive continues the chain. -/
theorem chained_append {archives : List Archive} (h : chained archives = true) {sha256 : String}
    (hdigest : digestValid sha256 = true) :
    chained (archives ++ [⟨UInt64.ofNat (archives.length + 1), sha256⟩]) = true := by
  rw [chained, List.zipIdx_append, List.all_append, Bool.and_eq_true]
  refine ⟨h, ?_⟩
  simp [hdigest, UInt64.ofNat_add]

section Archival

variable {g : Gate} (hg : g.Durable)

include hg

/-- The cut leaves no record and one archive more. -/
theorem cut_durable (sha256 : Bytes → Bytes) (io : Persisting) (reference : Archive)
    (nonces : Names) (reply : Value)
    (hchained : chained (g.retention.archives ++ [reference]) = true)
    (hspace : g.retention.archives.length < maxArchives) :
    Mut.Yields (do
      set { g with
        records := []
        retention := { g.retention with archives := g.retention.archives ++ [reference] } }
      Mut.onError Gate.poison (Gate.persist sha256 io true)
      modify fun g => { g with
        retention := { g.retention with
          retired := nonces.toList.foldl (fun s n => s.insert n) g.retention.retired } }
      pure reply) g fun _ g' => g'.Durable := by
  have hcut : Gate.Durable { g with
      records := []
      retention := { g.retention with archives := g.retention.archives ++ [reference] } } := by
    refine ⟨Nat.zero_le _, fun r hr => absurd hr List.not_mem_nil, hg.retention.origin, hchained, ?_⟩
    rw [List.length_append]
    exact hspace
  have hmarked := persist_marked sha256 io true
  refine Mut.yields_bind_set (Mut.yields_bind (Mut.yields_onError ?_ ?_))
  all_goals
    intro e h hexec
    have hkept := (hmarked _).durable hcut
    rw [hexec] at hkept
  · exact ⟨hkept.count, hkept.records, hkept.retention.origin, hkept.retention.archives,
      hkept.retention.limit⟩
  · exact (marked_poison h).durable hkept

theorem archive_durable {sha256 : Bytes → Bytes} (hsha256 : ∀ bytes, (sha256 bytes).length = 32)
    (io : Archiving) (review : String) :
    ((Op.archive io review).call sha256).Yields g fun _ g' => g'.Durable := by
  refine durable_of_receipt ?_
  unfold Gate.archiveRequests
  refine Mut.yields_bind ((persist_marked sha256 io.hot true).yields.mono fun r g₁ h₁ => ?_)
  have h₁ := h₁.durable hg
  cases r with
  | error e => exact h₁
  | ok u =>
  refine Mut.yields_bind ((retentionStatus_marked sha256 _ _).yields.mono fun r g₂ h₂ => ?_)
  have h₂ := h₂.durable h₁
  cases r with
  | error e => exact h₂
  | ok status =>
  refine Mut.yields_bind_get ?_
  refine Mut.yields_bind_lift (fun _ _ => h₂) fun _ hguard => ?_
  simp only [refuseIf_eq_ok, Bool.or_eq_false_iff, decide_eq_false_iff_not, ge_iff_le,
    Nat.not_le] at hguard
  refine Mut.yields_bind_lift (fun _ _ => h₂) fun _ _ => ?_
  refine Mut.yields_bind_lift (fun _ _ => h₂) fun bytes _ => ?_
  refine Mut.yields_bind_lift (fun _ _ => h₂) fun exhausted _ => ?_
  refine Mut.yields_bind_lift (fun _ _ => h₂) fun _ _ => ?_
  refine Mut.yields_bind ((publishArchive_marked io _).yields.mono fun r g₃ h₃ => ?_)
  have hdurable := h₃.durable h₂
  cases r with
  | error e => exact hdurable
  | ok u =>
  refine Mut.yields_bind_get ?_
  refine Mut.yields_bind_lift (fun _ _ => hdurable) fun nonces _ => ?_
  refine cut_durable hdurable sha256 io.cut _ nonces _ ?_ ?_
  · rw [h₃.archives]
    exact chained_append h₂.retention.archives (isHash_hex (hsha256 bytes))
  · rw [h₃.archives]
    exact hguard.2

end Archival

/-! ## Whole runs -/

theorem maintain_durable (sha256 : Bytes → Bytes) {g : Gate} (hg : g.Durable) (ledger : Ledger)
    (time : UInt64) (alive : Caller → Pin → Result Bool) :
    ((Op.maintain ledger time alive).call sha256).Yields g fun _ g' => g'.Durable := by
  refine Mut.yields_bind (Mut.yields_bind_get ?_)
  refine Mut.yields_bind_lift (fun _ _ => hg) fun _ _ => Mut.yields_bind_set ?_
  refine Mut.yields_lift ?_
  rcases hloop : Gate.maintainLoop (Gate.maintainRecord ledger time alive) g.records with
    ⟨result, records⟩
  have hmoved : Gate.Durable { g with records } := by
    refine hg.moved (maintainLoop_forall₂ (fun _ => id) (fun r r' cancelled h hr => ?_) hloop)
    obtain rfl | ⟨hphase, rfl⟩ | ⟨hphase, -, rfl⟩ := maintainRecord_cases h
    · exact hr
    · exact hr.drained hphase
    · exact hr.released hphase
  cases result with
  | error e => exact hmoved
  | ok workers => exact hmoved

/-- **Every call keeps a durable gate durable.** -/
theorem call_durable {sha256 : Bytes → Bytes} (hsha256 : ∀ bytes, (sha256 bytes).length = 32)
    {g : Gate} (hg : g.Durable) {op : Op} (hsupported : op.Supported) (hlabelled : op.Labelled) :
    (op.call sha256).Yields g fun _ g' => g'.Durable := by
  cases op with
  | begin caller pin message context time =>
    exact begin_durable hg sha256 caller pin message context time hsupported hlabelled
  | admitPrompt caller message time => exact admitPrompt_durable hg sha256 caller message time
  | finish caller message time => exact finish_durable hg sha256 caller message time
  | cancel caller nonce worker => exact cancel_durable hg sha256 caller nonce worker
  | maintain ledger time alive => exact maintain_durable sha256 hg ledger time alive
  | archive io review => exact archive_durable hg hsha256 io review

/-- A gate as `Gate::open` leaves it: what `decode` and the inventory of the archives check. -/
structure Gate.Opened (g : Gate) : Prop where
  valid : ∃ nonces, validateRecords g.records = .ok nonces
  words : ∀ r ∈ g.records, r.worker.generation < 2 ^ 64
  retired : ∀ r ∈ g.records, r.nonce ∉ g.retention.retired
  retention : g.retention.Durable

theorem Gate.Opened.durable {g : Gate} (h : g.Opened) : g.Durable ∧ g.Inv := by
  obtain ⟨nonces, hvalid⟩ := h.valid
  obtain ⟨hcount, hall, hnodup, hone, -⟩ := validateRecords_eq_ok.mp hvalid
  refine ⟨⟨hcount, fun r hr => ?_, h.retention⟩, ⟨hone, hnodup, h.retired⟩⟩
  obtain ⟨hproduct, hnonce, hidentified, hconsistent⟩ := hall r hr
  exact ⟨hproduct, hnonce, hidentified, hconsistent, h.words r hr⟩

/-- **Whatever the gate holds can be reopened.** From a gate that was opened, over calls that are
each made with what its callers hand to it and name a profile by its id, every gate along the run
passes its own validator, is written unless its publication is uncertain or its journal full, and
decodes from what is written. -/
theorem journal_reopens (sha256 : Bytes → Vector UInt8 32) (g : Gate) (hopened : g.Opened)
    (ops : List Op) (hsupported : ∀ op ∈ ops, op.Supported) (hlabelled : ∀ op ∈ ops, op.Labelled) :
    g.Reopens ∧ ∀ e ∈ trace (fun bytes => (sha256 bytes).toList) g ops, e.after.Reopens := by
  obtain ⟨hdurable, hinv⟩ := hopened.durable
  refine ⟨hdurable.reopens hinv, fun e he => ?_⟩
  have hrun := trace_among (I := fun g => g.Durable ∧ g.Inv)
    (C := fun op : Op => op.Supported ∧ op.Labelled) (fun g op hop hg => ?_)
    (fun op hop => ⟨hsupported op hop, hlabelled op hop⟩) ⟨hdurable, hinv⟩ e he
  · exact hrun.1.reopens hrun.2
  · have hkeeps := call_durable (fun bytes => (sha256 bytes).length_toList) hg.1 hop.1 hop.2
    exact ⟨hkeeps, (call_step _ hg.2.one op).inv hg.2⟩

theorem fresh_opened : Gate.fresh.Opened :=
  ⟨⟨∅, rfl⟩, fun _ hr => absurd hr List.not_mem_nil, fun _ hr => absurd hr List.not_mem_nil,
    ⟨rfl, rfl, Nat.zero_le _⟩⟩

theorem served_caller : Caller.Observed ⟨2, 3, "boot-one", 0⟩ :=
  ⟨by decide, by decide, by decide +kernel, .inl rfl⟩

theorem served_worker : Issued ⟨repeatText "a" 32, 1, repeatText "b" 32⟩ :=
  ⟨by decide +kernel, by decide +kernel, by decide, by decide⟩

theorem journal_reopens_served : Gate.fresh.Reopens ∧
    ∀ e ∈ trace (fun _ => (Vector.replicate 32 0).toList) .fresh (servedRequest ++ [cutFails]),
      e.after.Reopens := by
  refine journal_reopens (fun _ => Vector.replicate 32 0) .fresh fresh_opened _ ?_ ?_
  · simp only [servedRequest, cutFails, List.cons_append, List.nil_append, List.forall_mem_cons]
    exact ⟨⟨rfl, served_caller, served_worker⟩, trivial, trivial, trivial,
      fun _ h => absurd h List.not_mem_nil⟩
  · simp only [servedRequest, cutFails, List.cons_append, List.nil_append, List.forall_mem_cons]
    have hprofile : labelled "fixture" = true := by decide +kernel
    exact ⟨hprofile, trivial, trivial, trivial, fun _ h => absurd h List.not_mem_nil⟩

/-- A request that names no profile at all. -/
def unlabelledRequest : Op :=
  let worker : Token := ⟨repeatText "a" 32, 1, repeatText "b" 32⟩
  .begin ⟨2, 3, "boot-one", 0⟩ 5
    (.begin (repeatText "0" 32) worker "" (repeatText "c" 64) 128 9000) 2048 2

set_option maxRecDepth 10000 in
/-- The gate takes the request, and its validator refuses the record from then on. -/
theorem unlabelled_profile : ¬ ∀ (sha256 : Bytes → Vector UInt8 32) (g : Gate) (ops : List Op),
    g.Opened → (∀ op ∈ ops, op.Supported) →
      ∀ e ∈ trace (fun bytes => (sha256 bytes).toList) g ops,
        ∃ nonces, validateRecords e.after.records = .ok nonces := by
  intro h
  have hrun : ((trace (fun _ => (Vector.replicate 32 0).toList) .fresh [unlabelledRequest]).any
      fun e => e.result.isOk && !(validateRecords e.after.records).isOk) = true := by
    decide +kernel
  obtain ⟨e, he, hbad⟩ := List.any_eq_true.mp hrun
  obtain ⟨nonces, hvalid⟩ := h (fun _ => Vector.replicate 32 0) .fresh [unlabelledRequest]
    fresh_opened (fun op hop => (List.mem_singleton.mp hop) ▸ ⟨rfl, served_caller, served_worker⟩) e he
  rw [hvalid] at hbad
  simp [Except.isOk, Except.toBool] at hbad

end LumaOS.Inference
