import LumaOS.Base.Trace
import LumaOS.Inference.Journal

/-!
# Runs of the inference gate

A run is a list of calls of `begin`, `admit`, `finish`, `cancel`, `maintain` and `archive_requests`,
refused ones included, with any clock, ledger, liveness answer and disk answer at each.

* `Step` lists what a call can do and `call_step` says that every call does one of these. The loop
  of `maintain` writes as it goes, so that it fails without having written rests on the gate's own
  invariant: only an outstanding record can fail, and there is one at most.
* `CutFails` is the one way in which a call that fails loses records; `call_of_poisoned` says that
  every call after it is refused.
* `Gate.Inv`: one outstanding record at most, no nonce twice, and none of a retired request. One
  step keeps it (`Step.inv`).

**`gate_single_slot`** reads the rules of the slot off the steps of a whole run.
-/

namespace LumaOS.Inference

open LumaOS.Base LumaOS.Text LumaOS.Json
open LumaOS.Resources (Token Ledger)

/-! ## Calls -/

/-- One call of a gate's method, with what the world answered to it. -/
inductive Op where
  | begin (caller : Caller) (pin : Pin) (message : Message) (context time : UInt64)
  | admitPrompt (caller : Caller) (message : Message) (time : UInt64)
  | finish (caller : Caller) (message : Message) (time : UInt64)
  | cancel (caller : Caller) (nonce : String) (worker : Token)
  | maintain (ledger : Ledger) (time : UInt64) (alive : Caller → Pin → Result Bool)
  | archive (io : Archiving) (review : String)

/-- What a call returns: a receipt, or the workers to cancel. -/
inductive Reply where
  | receipt (value : Value)
  | cancellations (workers : List Token)

def Op.call (sha256 : Bytes → Bytes) : Op → Mut Gate Reply
  | .begin caller pin message context time => do
    let value ← Gate.begin caller pin message context time
    pure (.receipt value)
  | .admitPrompt caller message time => do
    let value ← Gate.admitPrompt caller message time
    pure (.receipt value)
  | .finish caller message time => do
    let value ← Gate.finish caller message time
    pure (.receipt value)
  | .cancel caller nonce worker => do
    let value ← Gate.cancel caller nonce worker
    pure (.receipt value)
  | .maintain ledger time alive => do
    let workers ← Gate.maintainChecked ledger time alive
    pure (.cancellations workers)
  | .archive io review => do
    let value ← Gate.archiveRequests sha256 io review
    pure (.receipt value)

def Op.isBegin : Op → Bool
  | .begin .. => true
  | _ => false

def Op.isArchive : Op → Bool
  | .archive .. => true
  | _ => false

/-- The call is a `finish` by the record's own caller, with its own worker token, in time. -/
def Op.Finishes (op : Op) (r : Record) : Prop :=
  ∃ promptTokens outputTokens resultDigest time,
    op = .finish r.caller (.finish r.nonce r.worker promptTokens outputTokens resultDigest) time ∧
      time < r.untilMs

/-- The call is a `maintain` with a ledger that holds the record's worker lease as released. -/
def Op.Drains (op : Op) (r : Record) : Prop :=
  ∃ ledger time alive, op = .maintain ledger time alive ∧
    ∃ lease ∈ ledger.leases, lease.token = r.worker ∧ lease.state = .released

/-! ## What one call does -/

/-- One phase to the next. -/
inductive PhaseMove : Phase → Phase → Prop
  | admitPrompt : PhaseMove .preparing .admitted
  | complete : PhaseMove .admitted .completed
  | fence {p : Phase} (h : p = .preparing ∨ p = .admitted) : PhaseMove p .draining
  | release {p : Phase} (h : p = .preparing ∨ p = .admitted ∨ p = .draining) :
      PhaseMove p .released

/-- What a call can do to one record. -/
inductive Moves (op : Op) (r : Record) : Record → Prop
  | same : Moves op r r
  | admitted (promptTokens : UInt64) (tokenDigest : String) (hphase : r.phase = .preparing) :
      Moves op r
        { r with prompt := some promptTokens, tokenDigest := some tokenDigest, phase := .admitted }
  | completed (outputTokens : UInt64) (resultDigest : String) (hphase : r.phase = .admitted)
      (hop : op.Finishes r) :
      Moves op r
        { r with
          output := some outputTokens
          resultDigest := some resultDigest
          phase := .completed
          pin := none }
  | drained (hphase : r.phase = .preparing ∨ r.phase = .admitted) :
      Moves op r { r with phase := .draining }
  | released (hphase : r.outstanding = true) (hop : op.Drains r) :
      Moves op r { r with phase := .released, pin := none }

/-- Only what the gate notes about its journal changed, and no bad note was taken back. -/
structure Noted (g g' : Gate) : Prop where
  records : g'.records = g.records
  retired : g'.retention.retired = g.retention.retired
  poisoned : g.retention.poisoned = true → g'.retention.poisoned = true
  authorityLost : g.retention.authorityLost = true → g'.retention.authorityLost = true

/-- An archival of which only the cut fails: the hot journal and the review held, there was something
to archive and room for it, the archive was published and read back, and then the journal without
the receipts did not become durable. -/
inductive CutFails (sha256 : Bytes → Bytes) (g : Gate) : Op → Stop → Gate → Prop
  | mk {io : Archiving} {review : String} {g₁ g₂ g₃ g₄ : Gate} {status : Value} {bytes : Bytes}
      {nonces : Names} {reference : Archive} {e : Stop}
      (hhot : (Gate.persist sha256 io.hot true).exec g = (.ok (), g₁))
      (hstatus : (Gate.retentionStatus sha256 io.status io.managerEpoch).exec g₁ = (.ok status, g₂))
      (hreview : (status.get "review").asStr = some review) (hfree : g₂.occupied = false)
      (hrecords : g₂.records ≠ []) (hroom : g₂.retention.archives.length < maxArchives)
      (hinventory : io.inventory = .ok ()) (hbytes : g₂.bytes = .ok bytes)
      (hfiles : io.filesExhausted = .ok false)
      (hreference : reference =
        ⟨UInt64.ofNat (g₂.retention.archives.length + 1), digest sha256 bytes⟩)
      (hpublished : (Gate.publishArchive io reference).exec g₂ = (.ok (), g₃))
      (hnonces : validateRecords g₃.records = .ok nonces)
      (hcut : (Gate.persist sha256 io.cut true).exec (g₃.withoutReceipts reference) =
        (.error e, g₄)) :
      CutFails sha256 g (.archive io review) e g₄.poison

/-- **What a call can do.** -/
inductive Step (sha256 : Bytes → Bytes) (g : Gate) (op : Op) : Result Reply → Gate → Prop
  | refused (e : Stop) : Step sha256 g op (.error e) g
  | noted (e : Stop) (g' : Gate) (hop : op.isArchive = true) (hnoted : Noted g g') :
      Step sha256 g op (.error e) g'
  | moved (reply : Reply) (records : List Record)
      (hmoves : List.Forall₂ (Moves op) g.records records) :
      Step sha256 g op (.ok reply) { g with records }
  | opened (reply : Reply) (record : Record) (hop : op.isBegin = true)
      (hphase : record.phase = .preparing) (hfree : g.occupied = false)
      (hfresh : ∀ r ∈ g.records, r.nonce ≠ record.nonce)
      (hretired : record.nonce ∉ g.retention.retired) :
      Step sha256 g op (.ok reply) { g with records := g.records ++ [record] }
  | cut (e : Stop) (g' : Gate) (hop : op.isArchive = true) (hcut : CutFails sha256 g op e g')
      (hterminal : ∀ r ∈ g.records, r.terminal = true) (hrecords : g'.records = [])
      (hpoisoned : g'.retention.poisoned = true) : Step sha256 g op (.error e) g'
  | archived (reply : Reply) (g' : Gate) (hop : op.isArchive = true) (hfree : g.occupied = false)
      (hterminal : ∀ r ∈ g.records, r.terminal = true) (hrecords : g'.records = [])
      (hretired : ∀ r ∈ g.records, r.nonce ∈ g'.retention.retired)
      (hkept : ∀ n ∈ g.retention.retired, n ∈ g'.retention.retired) : Step sha256 g op (.ok reply) g'

section Calls

variable {g : Gate} {sha256 : Bytes → Bytes}

/-- A call that hands on a method's receipt. -/
theorem step_of_receipt {op : Op} {m : Mut Gate Value}
    (h : m.Yields g fun r g' => Step sha256 g op (r.map Reply.receipt) g') :
    (m >>= fun value => pure (Reply.receipt value)).Yields g (Step sha256 g op) := by
  refine Mut.yields_bind (h.mono fun r g' hr => ?_)
  cases r with
  | error e => exact hr
  | ok value => exact hr

theorem Retention.check_eq_ok {r : Retention} {u : Unit} (h : r.check = .ok u) :
    r.poisoned = false ∧ r.authorityLost = false := by
  rwa [Retention.check, refuseIf_eq_ok, Bool.or_eq_false_iff] at h

theorem begin_step (sha256 : Bytes → Bytes) (caller : Caller) (pin : Pin) (message : Message)
    (context time : UInt64) : ((Op.begin caller pin message context time).call sha256).Yields g
      (Step sha256 g (.begin caller pin message context time)) := by
  refine step_of_receipt ?_
  unfold Gate.begin
  cases message with
  | begin nonce worker profile inputDigest maxOutputTokens requestDeadline =>
    refine Mut.yields_bind_get ?_
    refine Mut.yields_bind_lift (fun e _ => .refused e) fun _ _ => ?_
    refine Mut.yields_bind_lift (fun e _ => .refused e) fun _ _ => ?_
    split
    · refine Mut.yields_bind_lift (fun e _ => .refused e) fun _ _ => Mut.yields_pure ?_
      exact .moved _ g.records (List.forall₂_same.mpr fun r _ => .same)
    · rename_i hfind
      refine Mut.yields_bind_lift (fun e _ => .refused e) fun _ hfree => ?_
      refine Mut.yields_bind_set (Mut.yields_pure ?_)
      simp only [refuseIf_eq_ok, Bool.or_eq_false_iff, decide_eq_false_iff_not] at hfree
      obtain ⟨⟨hfree, -⟩, hretired⟩ := hfree
      refine .opened _ _ rfl rfl hfree (fun r hr => ?_) ?_
      · simpa using List.find?_eq_none.mp hfind r hr
      · rw [Std.ExtTreeSet.mem_iff_contains, hretired]
        exact Bool.false_ne_true
  | admitPrompt | finish | cancel => exact .refused _

/-- The record found is the caller's own, with that nonce and worker. -/
theorem record_eq_ok {caller : Caller} {nonce : String} {worker : Token} {found : Nat × Record}
    (h : g.record caller nonce worker = .ok found) :
    g.records[found.1]? = some found.2 ∧ found.2.caller = caller ∧ found.2.nonce = nonce ∧
      found.2.worker = worker := by
  simp only [Gate.record, bind_eq_ok, okOr_eq_ok, expect_eq_ok, pure_eq_ok] at h
  obtain ⟨_, -, _, -, index, hindex, record, hrecord, rfl⟩ := h
  obtain ⟨-, hown⟩ := findIdx?_eq_some_get hindex hrecord
  simp only [Bool.and_eq_true, beq_iff_eq] at hown
  exact ⟨hrecord, hown.1.1, hown.1.2, hown.2⟩

/-- A write at the record found moves that record and no other. -/
theorem step_of_write {op : Op} {index : Nat} {r r' : Record} (hr : g.records[index]? = some r)
    (hmove : Moves op r r') (reply : Reply) : Step sha256 g op (.ok reply) (g.write index r') := by
  refine .moved reply _ (forall₂_modify (fun _ => .same) fun x hx => ?_)
  rw [hr] at hx
  cases hx
  exact hmove

/-- A replay answers with the receipt it finds. -/
theorem step_of_replay {op : Op} (reply : Reply) : Step sha256 g op (.ok reply) g :=
  .moved reply g.records (List.forall₂_same.mpr fun _ _ => .same)

theorem admitPrompt_step (sha256 : Bytes → Bytes) (caller : Caller) (message : Message)
    (time : UInt64) : ((Op.admitPrompt caller message time).call sha256).Yields g
      (Step sha256 g (.admitPrompt caller message time)) := by
  refine step_of_receipt ?_
  unfold Gate.admitPrompt
  cases message with
  | admitPrompt nonce worker promptTokens tokenDigest =>
    refine Mut.yields_bind_get ?_
    refine Mut.yields_bind_lift (fun e _ => .refused e) fun found hfound => ?_
    obtain ⟨hrecord, -⟩ := record_eq_ok hfound
    refine Mut.yields_bind_lift (fun e _ => .refused e) fun _ _ => ?_
    split
    · exact Mut.yields_bind_lift (fun e _ => .refused e) fun _ _ => step_of_replay _
    · refine Mut.yields_bind_lift (fun e _ => .refused e) fun _ hphase => ?_
      rw [refuseIf_eq_ok, bne_eq_false_iff_eq] at hphase
      refine Mut.yields_bind_set (Mut.yields_pure ?_)
      exact step_of_write hrecord (.admitted promptTokens tokenDigest hphase) _
  | begin | finish | cancel => exact .refused _

theorem finish_step (sha256 : Bytes → Bytes) (caller : Caller) (message : Message)
    (time : UInt64) : ((Op.finish caller message time).call sha256).Yields g
      (Step sha256 g (.finish caller message time)) := by
  refine step_of_receipt ?_
  unfold Gate.finish
  cases message with
  | finish nonce worker promptTokens outputTokens resultDigest =>
    refine Mut.yields_bind_get ?_
    refine Mut.yields_bind_lift (fun e _ => .refused e) fun found hfound => ?_
    obtain ⟨hrecord, rfl, rfl, rfl⟩ := record_eq_ok hfound
    refine Mut.yields_bind_lift (fun e _ => .refused e) fun _ hbudget => ?_
    simp only [refuseIf_eq_ok, Bool.or_eq_false_iff, decide_eq_false_iff_not, ge_iff_le,
      UInt64.not_le] at hbudget
    split
    · exact Mut.yields_bind_lift (fun e _ => .refused e) fun _ _ => step_of_replay _
    · refine Mut.yields_bind_lift (fun e _ => .refused e) fun _ hphase => ?_
      rw [refuseIf_eq_ok, bne_eq_false_iff_eq] at hphase
      refine Mut.yields_bind_set (Mut.yields_pure ?_)
      refine step_of_write hrecord (.completed outputTokens resultDigest hphase ?_) _
      exact ⟨promptTokens, outputTokens, resultDigest, time, rfl, hbudget.1.1.1.1.1⟩
  | begin | admitPrompt | cancel => exact .refused _

theorem cancel_step (sha256 : Bytes → Bytes) (caller : Caller) (nonce : String) (worker : Token) :
    ((Op.cancel caller nonce worker).call sha256).Yields g
      (Step sha256 g (.cancel caller nonce worker)) := by
  refine step_of_receipt (Mut.yields_bind_get ?_)
  refine Mut.yields_bind_lift (fun e _ => .refused e) fun found hfound => ?_
  obtain ⟨hrecord, -⟩ := record_eq_ok hfound
  dsimp only
  split
  · rename_i hphase
    exact Mut.yields_bind_set (Mut.yields_pure (step_of_write hrecord (.drained hphase) _))
  · exact Mut.yields_pure (step_of_replay _)

/-! ### Maintenance -/

theorem outstanding_eq_not_terminal (r : Record) : r.outstanding = !r.terminal := by
  unfold Record.outstanding Record.terminal
  cases r.phase <;> rfl

theorem outstanding_iff {r : Record} : r.outstanding = true ↔
    r.phase = .preparing ∨ r.phase = .admitted ∨ r.phase = .draining := by
  simp [Record.outstanding, or_assoc]

/-- An iteration leaves a record, fences it, or releases it with its worker's lease. -/
theorem maintainRecord_cases {ledger : Ledger} {time : UInt64} {alive : Caller → Pin → Result Bool}
    {r r' : Record} {cancelled : List Token}
    (h : Gate.maintainRecord ledger time alive r = .ok (r', cancelled)) :
    r' = r ∨
      ((r.phase = .preparing ∨ r.phase = .admitted) ∧ r' = { r with phase := .draining }) ∨
      (r.outstanding = true ∧ (Op.maintain ledger time alive).Drains r ∧
        r' = { r with phase := .released, pin := none }) := by
  unfold Gate.maintainRecord at h
  split at h
  · cases h
    exact .inl rfl
  · rename_i hterminal
    have hphase : r.outstanding = true := by
      rw [outstanding_eq_not_terminal, Bool.eq_false_iff.mpr hterminal]
      rfl
    obtain ⟨lease, hlease, h⟩ := bind_eq_ok.mp h
    rw [okOr_eq_ok] at hlease
    split at h
    · rename_i hstate
      cases h
      have htoken : lease.token = r.worker := by simpa using List.find?_some hlease
      exact .inr (.inr ⟨hphase,
        ⟨ledger, time, alive, rfl, lease, List.mem_of_find?_eq_some hlease, htoken, hstate⟩, rfl⟩)
    · obtain ⟨lost, -, h⟩ := bind_eq_ok.mp h
      cases h
      cases lost with
      | false => exact .inl rfl
      | true =>
        rcases outstanding_iff.mp hphase with hp | hp | hp
        · exact .inr (.inl ⟨.inl hp, rfl⟩)
        · exact .inr (.inl ⟨.inr hp, rfl⟩)
        · rw [if_pos rfl, ← hp]
          exact .inl rfl

theorem maintainRecord_eq_ok {ledger : Ledger} {time : UInt64} {alive : Caller → Pin → Result Bool}
    {r r' : Record} {cancelled : List Token}
    (h : Gate.maintainRecord ledger time alive r = .ok (r', cancelled)) :
    Moves (.maintain ledger time alive) r r' := by
  obtain rfl | ⟨hphase, rfl⟩ | ⟨hphase, hop, rfl⟩ := maintainRecord_cases h
  · exact .same
  · exact .drained hphase
  · exact .released hphase hop

/-- A terminal record is passed over. -/
theorem maintainRecord_of_terminal {ledger : Ledger} {time : UInt64}
    {alive : Caller → Pin → Result Bool} {r : Record} (h : r.terminal = true) :
    Gate.maintainRecord ledger time alive r = .ok (r, []) := by
  unfold Gate.maintainRecord
  rw [if_pos h]
  rfl

section Loop

variable {body : Record → Result (Record × List Token)}

/-- The loop treats its records one by one, whether or not it gets to the end. -/
theorem maintainLoop_forall₂ {R : Record → Record → Prop} (hrefl : ∀ r, R r r)
    (hbody : ∀ r r' cancelled, body r = .ok (r', cancelled) → R r r') :
    ∀ {records records' : List Record} {result : Result (List Token)},
      Gate.maintainLoop body records = (result, records') → List.Forall₂ R records records'
  | [], _, _, h => by
    cases h
    exact .nil
  | r :: rest, records', result, h => by
    unfold Gate.maintainLoop at h
    split at h
    · cases h
      exact List.forall₂_same.mpr fun r _ => hrefl r
    · rename_i next cancelled hnext
      rcases hrest : Gate.maintainLoop body rest with ⟨result', rest'⟩
      rw [hrest] at h
      cases h
      exact .cons (hbody r next cancelled hnext) (maintainLoop_forall₂ hrefl hbody hrest)

theorem maintainLoop_terminal (hbody : ∀ r, r.terminal = true → body r = .ok (r, [])) :
    ∀ {records records' : List Record} {e : Stop}, (∀ r ∈ records, r.terminal = true) →
      Gate.maintainLoop body records ≠ (.error e, records')
  | [], _, _, _, h => by cases h
  | r :: rest, records', e, hall, h => by
    obtain ⟨hr, hrest⟩ := List.forall_mem_cons.mp hall
    unfold Gate.maintainLoop at h
    rw [hbody r hr] at h
    rcases hloop : Gate.maintainLoop body rest with ⟨e' | workers, rest'⟩
    · exact maintainLoop_terminal hbody hrest hloop
    · simp only [hloop] at h
      cases h

/-- Only an outstanding record fails, and there is one at most: the records before it were passed
over, so a loop that fails has written nothing. -/
theorem maintainLoop_error (hbody : ∀ r, r.terminal = true → body r = .ok (r, [])) :
    ∀ {records records' : List Record} {e : Stop}, AtMostOne Record.outstanding records →
      Gate.maintainLoop body records = (.error e, records') → records' = records
  | [], _, _, _, h => by cases h
  | r :: rest, records', e, hone, h => by
    obtain ⟨hr, hrest⟩ := List.pairwise_cons.mp hone
    unfold Gate.maintainLoop at h
    split at h
    · cases h
      rfl
    · rename_i next cancelled hnext
      rcases hloop : Gate.maintainLoop body rest with ⟨e' | workers, rest'⟩
      · rw [hloop] at h
        cases h
        rw [maintainLoop_error hbody hrest hloop]
        -- the failure is further on, so this record is not the outstanding one
        by_cases hout : r.terminal = true
        · rw [hbody r hout] at hnext
          cases hnext
          rfl
        · exfalso
          have hothers : ∀ x ∈ rest, x.terminal = true := by
            intro x hx
            have := hr x hx (by rw [outstanding_eq_not_terminal]; simpa using hout)
            rw [outstanding_eq_not_terminal] at this
            simpa using this
          exact maintainLoop_terminal hbody hothers hloop
      · rw [hloop] at h
        cases h

end Loop

theorem maintain_step (sha256 : Bytes → Bytes) (hone : AtMostOne Record.outstanding g.records)
    (ledger : Ledger) (time : UInt64) (alive : Caller → Pin → Result Bool) :
    ((Op.maintain ledger time alive).call sha256).Yields g
      (Step sha256 g (.maintain ledger time alive)) := by
  refine Mut.yields_bind (Mut.yields_bind_get ?_)
  refine Mut.yields_bind_lift (fun e _ => .refused e) fun _ _ => Mut.yields_bind_set ?_
  refine Mut.yields_lift ?_
  rcases hloop : Gate.maintainLoop (Gate.maintainRecord ledger time alive) g.records with
    ⟨e | workers, records⟩
  · rw [maintainLoop_error (fun _ => maintainRecord_of_terminal) hone hloop]
    exact .refused e
  · refine .moved _ records (maintainLoop_forall₂ (fun _ => .same) (fun _ _ _ => ?_) hloop)
    exact maintainRecord_eq_ok

/-! ### Archiving -/

/-- Notes that leave the archives alone: all that a call makes before its cut. -/
structure Marked (g g' : Gate) : Prop extends Noted g g' where
  origin : g'.retention.origin = g.retention.origin
  archives : g'.retention.archives = g.retention.archives

instance refl_marked : Std.Refl Marked := ⟨fun _ => ⟨⟨rfl, rfl, id, id⟩, rfl, rfl⟩⟩

theorem Noted.trans {a b c : Gate} (h : Noted a b) (h' : Noted b c) : Noted a c where
  records := h'.records.trans h.records
  retired := h'.retired.trans h.retired
  poisoned := h'.poisoned ∘ h.poisoned
  authorityLost := h'.authorityLost ∘ h.authorityLost

theorem Marked.trans {a b c : Gate} (h : Marked a b) (h' : Marked b c) : Marked a c where
  toNoted := h.toNoted.trans h'.toNoted
  origin := h'.origin.trans h.origin
  archives := h'.archives.trans h.archives

instance trans_marked : Trans Marked Marked Marked := ⟨Marked.trans⟩

theorem marked_poison (g : Gate) : Marked g g.poison := ⟨⟨rfl, rfl, fun _ => rfl, id⟩, rfl, rfl⟩

theorem marked_loseAuthority (g : Gate) : Marked g g.loseAuthority :=
  ⟨⟨rfl, rfl, id, fun _ => rfl⟩, rfl, rfl⟩

theorem verifyDurable_marked (observed : Except String String) (expected : String) :
    (Gate.verifyDurable observed expected).Keeps Marked := by
  refine Mut.keeps_bind_get fun g => Mut.keeps_bind (Mut.keeps_lift _) (fun _ => ?_) g
  refine Mut.keeps_onError (Mut.keeps_bind (Mut.keeps_lift _) fun _ => Mut.keeps_lift _) ?_
  exact marked_loseAuthority

theorem verifyLoaded_marked (observed : Except String String) :
    (Gate.verifyLoaded observed).Keeps Marked :=
  Mut.keeps_bind_get fun g =>
    Mut.keeps_bind (Mut.keeps_lift _) (fun _ => verifyDurable_marked observed _) g

theorem persist_marked (sha256 : Bytes → Bytes) (io : Persisting) (acknowledge : Bool) :
    (Gate.persist sha256 io acknowledge).Keeps Marked := by
  refine Mut.keeps_bind_get fun g => Mut.keeps_bind (Mut.keeps_lift _) (fun bytes => ?_) g
  refine Mut.keeps_bind (Mut.keeps_lift _) fun published => Mut.keeps_bind ?_ fun _ => ?_
  · refine Mut.keeps_onError (Mut.keeps_bind (verifyDurable_marked _ _) fun _ => ?_) marked_poison
    split
    · exact Mut.keeps_pure _
    · exact Mut.keeps_bind (Mut.keeps_lift _) fun _ => verifyDurable_marked _ _
  · exact Mut.keeps_modify fun g => ⟨⟨rfl, rfl, id, id⟩, rfl, rfl⟩

theorem retentionStatus_marked (sha256 : Bytes → Bytes)
    (observed managerEpoch : Except String String) :
    (Gate.retentionStatus sha256 observed managerEpoch).Keeps Marked := by
  refine Mut.keeps_bind (verifyLoaded_marked observed) fun _ => Mut.keeps_bind_get fun g => ?_
  exact Mut.keeps_bind (Mut.keeps_lift _)
    (fun _ => Mut.keeps_bind (Mut.keeps_lift _) fun _ => Mut.keeps_pure _) g

theorem publishArchive_marked (io : Archiving) (reference : Archive) :
    (Gate.publishArchive io reference).Keeps Marked := by
  refine Mut.keeps_onError (Mut.keeps_bind (Mut.keeps_lift _) fun _ => ?_) marked_poison
  refine Mut.keeps_bind (Mut.keeps_lift _) fun _ => Mut.keeps_bind (Mut.keeps_lift _) fun _ => ?_
  exact verifyLoaded_marked io.loaded

theorem validateLoop_nonces {records : List Record} : ∀ {acc acc' : Names × Nat},
    records.foldlM validateRecord acc = .ok acc' →
      (∀ n ∈ acc.1, n ∈ acc'.1) ∧ ∀ r ∈ records, r.nonce ∈ acc'.1 := by
  induction records with
  | nil =>
    intro acc acc' h
    rw [List.foldlM_nil, pure_eq_ok] at h
    subst h
    exact ⟨fun _ hn => hn, fun _ hr => absurd hr List.not_mem_nil⟩
  | cons r rest ih =>
    intro acc acc' h
    rw [List.foldlM_cons, bind_eq_ok] at h
    obtain ⟨mid, hmid, hrest⟩ := h
    simp only [validateRecord, bind_eq_ok, pure_eq_ok] at hmid
    obtain ⟨_, -, _, -, _, -, rfl⟩ := hmid
    obtain ⟨hkept, hnonces⟩ := ih hrest
    refine ⟨fun n hn => hkept n (Names.mem_insert.mpr (.inr hn)), fun x hx => ?_⟩
    rcases List.mem_cons.mp hx with rfl | hx
    · exact hkept _ (Names.mem_insert.mpr (.inl rfl))
    · exact hnonces x hx

/-- The nonces that `validate_records` returns hold those of the records. -/
theorem validateRecords_nonces {records : List Record} {nonces : Names}
    (h : validateRecords records = .ok nonces) : ∀ r ∈ records, r.nonce ∈ nonces := by
  simp only [validateRecords, bind_eq_ok, pure_eq_ok] at h
  obtain ⟨_, -, acc, hloop, _, -, rfl⟩ := h
  exact (validateLoop_nonces hloop).2

theorem occupied_eq_false {g : Gate} : g.occupied = false ↔
    (g.retention.poisoned = false ∧ g.retention.authorityLost = false) ∧
      ∀ r ∈ g.records, r.terminal = true := by
  simp only [Gate.occupied, Bool.or_eq_false_iff, List.any_eq_false, outstanding_eq_not_terminal,
    Bool.not_eq_true', Bool.not_eq_false]

theorem Noted.occupied {g g' : Gate} (h : Noted g g') (hfree : g'.occupied = false) :
    g.occupied = false := by
  obtain ⟨⟨hpoisoned, hlost⟩, hterminal⟩ := occupied_eq_false.mp hfree
  refine occupied_eq_false.mpr ⟨⟨?_, ?_⟩, h.records ▸ hterminal⟩
  · by_contra hp
    rw [h.poisoned (by simpa using hp)] at hpoisoned
    exact Bool.noConfusion hpoisoned
  · by_contra hl
    rw [h.authorityLost (by simpa using hl)] at hlost
    exact Bool.noConfusion hlost

/-- The cut: the receipts are gone from the gate, and their nonces are retired or it is poisoned. -/
theorem cut_step (sha256 : Bytes → Bytes) (io : Archiving) (review : String) {g' : Gate}
    (hnoted : Noted g g') (hfree : g.occupied = false) {nonces : Names}
    (hnonces : ∀ r ∈ g.records, r.nonce ∈ nonces) (reference : Archive) (reply : Value)
    (hfails : ∀ e h, (Gate.persist sha256 io.cut true).exec (g'.withoutReceipts reference) =
      (.error e, h) → CutFails sha256 g (.archive io review) e h.poison) :
    Mut.Yields (do
      set (g'.withoutReceipts reference)
      Mut.onError Gate.poison (Gate.persist sha256 io.cut true)
      modify fun g => { g with
        retention := { g.retention with
          retired := nonces.toList.foldl (fun s n => s.insert n) g.retention.retired } }
      pure reply) g' fun r g' => Step sha256 g (.archive io review) (r.map Reply.receipt) g' := by
  have hterminal := (occupied_eq_false.mp hfree).2
  refine Mut.yields_bind_set (Mut.yields_bind (Mut.yields_onError ?_ ?_))
  all_goals
    intro e h hexec
    have hcut := persist_marked sha256 io.cut true (g'.withoutReceipts reference)
    rw [hexec] at hcut
  · have hretired : h.retention.retired = g.retention.retired := hcut.retired.trans hnoted.retired
    refine Step.archived _ _ rfl hfree hterminal hcut.records (fun r hr => ?_) fun n hn => ?_
    · exact Names.mem_insertAll.mpr (.inl (Names.mem_toList.mpr (hnonces r hr)))
    · exact Names.mem_insertAll.mpr (.inr (hretired ▸ hn))
  · exact Step.cut e _ rfl (hfails e h hexec) hterminal hcut.records rfl

theorem archive_step (sha256 : Bytes → Bytes) (io : Archiving) (review : String) :
    ((Op.archive io review).call sha256).Yields g (Step sha256 g (.archive io review)) := by
  have hrefused : ∀ {g' : Gate}, Noted g g' → ∀ e : Stop,
      Step sha256 g (.archive io review) (.error e) g' := fun h e => .noted e _ rfl h
  refine step_of_receipt ?_
  unfold Gate.archiveRequests
  refine Mut.yields_bind ((persist_marked sha256 io.hot true).yields.traced.mono fun r g₁ h₁ => ?_)
  obtain ⟨hhot, h₁⟩ := h₁
  have h₁ := h₁.toNoted
  cases r with
  | error e => exact hrefused h₁ e
  | ok u =>
  refine Mut.yields_bind
    ((retentionStatus_marked sha256 _ _).yields.traced.mono fun r g₂ h₂ => ?_)
  obtain ⟨hstatus, h₂⟩ := h₂
  have h₂ := h₁.trans h₂.toNoted
  cases r with
  | error e => exact hrefused h₂ e
  | ok status =>
  refine Mut.yields_bind_get ?_
  refine Mut.yields_bind_lift (fun e _ => hrefused h₂ e) fun _ hguard => ?_
  simp only [refuseIf_eq_ok, Bool.or_eq_false_iff, bne_eq_false_iff_eq, List.isEmpty_eq_false_iff,
    decide_eq_false_iff_not, ge_iff_le, Nat.not_le] at hguard
  obtain ⟨⟨⟨hreview, hfree₂⟩, hrecords⟩, hroom⟩ := hguard
  refine Mut.yields_bind_lift (fun e _ => hrefused h₂ e) fun _ hinventory => ?_
  refine Mut.yields_bind_lift (fun e _ => hrefused h₂ e) fun bytes hbytes => ?_
  refine Mut.yields_bind_lift (fun e _ => hrefused h₂ e) fun exhausted hfiles => ?_
  refine Mut.yields_bind_lift (fun e _ => hrefused h₂ e) fun _ hexhausted => ?_
  rw [refuseIf_eq_ok] at hexhausted
  subst hexhausted
  refine Mut.yields_bind ((publishArchive_marked io _).yields.traced.mono fun r g₃ h₃ => ?_)
  obtain ⟨hpublished, h₃⟩ := h₃
  have h₃ := h₂.trans h₃.toNoted
  cases r with
  | error e => exact hrefused h₃ e
  | ok u =>
  refine Mut.yields_bind_get ?_
  refine Mut.yields_bind_lift (fun e _ => hrefused h₃ e) fun nonces hnonces => ?_
  refine cut_step sha256 io review h₃ (h₂.occupied hfree₂)
    (fun r hr => validateRecords_nonces hnonces r (h₃.records ▸ hr)) _ _ fun e h hcut => ?_
  exact .mk hhot hstatus hreview hfree₂ hrecords hroom (ofForeign_eq_ok.mp hinventory) hbytes
    (ofForeign_eq_ok.mp hfiles) rfl hpublished hnonces hcut

/-- **Every call is a step.** -/
theorem call_step (sha256 : Bytes → Bytes) (hone : AtMostOne Record.outstanding g.records)
    (op : Op) : (op.call sha256).Yields g (Step sha256 g op) := by
  cases op with
  | begin caller pin message context time => exact begin_step sha256 caller pin message context time
  | admitPrompt caller message time => exact admitPrompt_step sha256 caller message time
  | finish caller message time => exact finish_step sha256 caller message time
  | cancel caller nonce worker => exact cancel_step sha256 caller nonce worker
  | maintain ledger time alive => exact maintain_step sha256 hone ledger time alive
  | archive io review => exact archive_step sha256 io review

/-! ### A gate that lost its journal -/

theorem bytes_eq_ok {bytes : Bytes} (h : g.bytes = .ok bytes) :
    g.retention.poisoned = false ∧ g.retention.authorityLost = false := by
  simp only [Gate.bytes, bind_eq_ok] at h
  obtain ⟨_, hcheck, -⟩ := h
  exact Retention.check_eq_ok hcheck

/-- A call that reads the gate first changes nothing where that read is refused. -/
theorem yields_refused {α β : Type} {read : Gate → Result α} {next : Gate → α → Mut Gate β}
    {Q : Result β → Gate → Prop} (h : ∀ a, read g ≠ .ok a) (hQ : ∀ stop, Q (.error stop) g) :
    (get >>= fun g => liftM (read g) >>= next g : Mut Gate β).Yields g Q :=
  Mut.yields_bind_get (Mut.yields_bind_lift (fun stop _ => hQ stop) fun a ha => absurd ha (h a))

/-- **A poisoned gate refuses every call**, and stays what it is. -/
theorem call_of_poisoned (sha256 : Bytes → Bytes) (hg : g.retention.poisoned = true) (op : Op) :
    (op.call sha256).Yields g fun r g' => (∃ stop, r = .error stop) ∧ g' = g := by
  have hcheck : ∀ u, g.retention.check ≠ .ok u := fun u h => by
    rw [(Retention.check_eq_ok h).1] at hg
    cases hg
  have hrecord : ∀ caller nonce worker found, g.record caller nonce worker ≠ .ok found := by
    intro caller nonce worker found h
    simp only [Gate.record, bind_eq_ok] at h
    obtain ⟨u, h, -⟩ := h
    exact hcheck u h
  have hbytes : ∀ bytes, g.bytes ≠ .ok bytes := fun bytes h => by
    rw [(bytes_eq_ok h).1] at hg
    cases hg
  have hstop : ∀ e : Stop, (∃ stop, (.error e : Result Reply) = .error stop) ∧ g = g :=
    fun e => ⟨⟨e, rfl⟩, rfl⟩
  cases op with
  | begin caller pin message context time =>
    refine Mut.yields_bind ?_
    cases message with
    | begin => exact yields_refused hcheck hstop
    | admitPrompt | finish | cancel => exact ⟨⟨_, rfl⟩, rfl⟩
  | admitPrompt caller message time =>
    refine Mut.yields_bind ?_
    cases message with
    | admitPrompt nonce worker => exact yields_refused (hrecord caller nonce worker) hstop
    | begin | finish | cancel => exact ⟨⟨_, rfl⟩, rfl⟩
  | finish caller message time =>
    refine Mut.yields_bind ?_
    cases message with
    | finish nonce worker => exact yields_refused (hrecord caller nonce worker) hstop
    | begin | admitPrompt | cancel => exact ⟨⟨_, rfl⟩, rfl⟩
  | cancel caller nonce worker =>
    exact Mut.yields_bind (yields_refused (hrecord caller nonce worker) hstop)
  | maintain ledger time alive => exact Mut.yields_bind (yields_refused hcheck hstop)
  | archive io review => exact Mut.yields_bind (Mut.yields_bind (yields_refused hbytes hstop))

end Calls

/-! ## The invariant -/

/-- The gate's own invariant. -/
structure Gate.Inv (g : Gate) : Prop where
  one : AtMostOne Record.outstanding g.records
  nonces : (g.records.map Record.nonce).Nodup
  retired : ∀ r ∈ g.records, r.nonce ∉ g.retention.retired

theorem inv_of_records_nil {g : Gate} (h : g.records = []) : g.Inv := by
  refine ⟨?_, ?_, ?_⟩
  · rw [h]
    exact List.Pairwise.nil
  · rw [h]
    exact List.nodup_nil
  · rw [h]
    exact fun r hr => absurd hr List.not_mem_nil

section Steps

variable {sha256 : Bytes → Bytes} {g g' : Gate} {op : Op} {result : Result Reply} {r r' : Record}

theorem Moves.nonce (h : Moves op r r') : r'.nonce = r.nonce := by
  cases h <;> rfl

/-- No call takes up a record that has ended. -/
theorem Moves.outstanding (h : Moves op r r') (hout : r'.outstanding = true) :
    r.outstanding = true := by
  cases h with
  | same => exact hout
  | admitted promptTokens tokenDigest hphase => exact outstanding_iff.mpr (.inl hphase)
  | completed => cases hout
  | drained hphase => exact outstanding_iff.mpr (by tauto)
  | released hphase => exact hphase

/-- A record ends by its owner's `finish` or by the drainage of its worker. -/
theorem Moves.ended (h : Moves op r r') (hout : r.outstanding = true)
    (hend : r'.terminal = true) : op.Finishes r ∨ op.Drains r := by
  cases h with
  | same =>
    rw [outstanding_eq_not_terminal, hend] at hout
    cases hout
  | admitted => cases hend
  | completed _ _ _ hop => exact .inl hop
  | drained => cases hend
  | released _ hop => exact .inr hop

theorem Step.inv (h : Step sha256 g op result g') (hg : g.Inv) : g'.Inv := by
  cases h with
  | refused => exact hg
  | noted e _ _ hnoted =>
    refine ⟨?_, ?_, ?_⟩
    · rw [hnoted.records]
      exact hg.one
    · rw [hnoted.records]
      exact hg.nonces
    · rw [hnoted.records, hnoted.retired]
      exact hg.retired
  | moved reply records hmoves =>
    have hnonces : records.map Record.nonce = g.records.map Record.nonce :=
      map_eq_of_forall₂ (fun _ _ hmove => hmove.nonce) hmoves
    refine ⟨hg.one.forall₂ hmoves fun _ _ => Moves.outstanding, ?_, fun r' hr' => ?_⟩
    · rw [hnonces]
      exact hg.nonces
    · obtain ⟨r, hr, hmove⟩ := exists_mem_of_forall₂ hmoves r' hr'
      rw [hmove.nonce]
      exact hg.retired r hr
  | opened reply record _ hphase hfree hfresh hretired =>
    have hterminal := (occupied_eq_false.mp hfree).2
    refine ⟨?_, ?_, fun r hr => ?_⟩
    · refine List.pairwise_append.mpr ⟨hg.one, List.pairwise_singleton _ _, fun r hr _ _ hout => ?_⟩
      rw [outstanding_eq_not_terminal, hterminal r hr] at hout
      cases hout
    · rw [List.map_append]
      refine List.nodup_append'.mpr ⟨hg.nonces, List.nodup_singleton _, ?_⟩
      intro n hn hrecord
      obtain ⟨r, hr, rfl⟩ := List.mem_map.mp hn
      rw [List.map_singleton, List.mem_singleton] at hrecord
      exact hfresh r hr hrecord
    · rcases List.mem_append.mp hr with hr | hr
      · exact hg.retired r hr
      · rw [List.mem_singleton.mp hr]
        exact hretired
  | cut e _ _ _ _ hrecords | archived reply _ _ _ _ hrecords => exact inv_of_records_nil hrecords

/-- Records of one nonce are one record. -/
theorem Gate.Inv.eq_of_nonce (hg : g.Inv) (hr : r ∈ g.records) (hr' : r' ∈ g.records)
    (h : r'.nonce = r.nonce) : r' = r := List.inj_on_of_nodup_map hg.nonces hr' hr h

/-- The record of a nonce after a call is what the call made of the one before it. -/
theorem Step.moves (h : Step sha256 g op result g') (hg : g.Inv) (hr : r ∈ g.records)
    (hr' : r' ∈ g'.records) (hnonce : r'.nonce = r.nonce) : Moves op r r' := by
  cases h with
  | refused =>
    rw [hg.eq_of_nonce hr hr' hnonce]
    exact .same
  | noted e _ _ hnoted =>
    rw [hnoted.records] at hr'
    rw [hg.eq_of_nonce hr hr' hnonce]
    exact .same
  | moved reply records hmoves =>
    obtain ⟨r₀, hr₀, hmove⟩ := exists_mem_of_forall₂ hmoves r' hr'
    rwa [hg.eq_of_nonce hr hr₀ (hmove.nonce.symm.trans hnonce)] at hmove
  | opened reply record _ _ _ hfresh =>
    rcases List.mem_append.mp hr' with hr' | hr'
    · rw [hg.eq_of_nonce hr hr' hnonce]
      exact .same
    · rw [List.mem_singleton.mp hr'] at hnonce
      exact absurd hnonce.symm (hfresh r hr)
  | cut e _ _ _ _ hrecords | archived reply _ _ _ _ hrecords =>
    rw [hrecords] at hr'
    exact absurd hr' List.not_mem_nil

/-- A new record is one that `begin` opened. -/
theorem Step.origin (h : Step sha256 g op result g') (hr' : r' ∈ g'.records) :
    (∃ r ∈ g.records, r.nonce = r'.nonce) ∨ (op.isBegin = true ∧ r'.phase = .preparing) := by
  cases h with
  | refused => exact .inl ⟨r', hr', rfl⟩
  | noted e _ _ hnoted => exact .inl ⟨r', hnoted.records ▸ hr', rfl⟩
  | moved reply records hmoves =>
    obtain ⟨r, hr, hmove⟩ := exists_mem_of_forall₂ hmoves r' hr'
    exact .inl ⟨r, hr, hmove.nonce.symm⟩
  | opened reply record hop hphase =>
    rcases List.mem_append.mp hr' with hr' | hr'
    · exact .inl ⟨r', hr', rfl⟩
    · rw [List.mem_singleton.mp hr']
      exact .inr ⟨hop, hphase⟩
  | cut e _ _ _ _ hrecords | archived reply _ _ _ _ hrecords =>
    rw [hrecords] at hr'
    exact absurd hr' List.not_mem_nil

/-- A record leaves the gate when it has ended and is archived. -/
theorem Step.departure (h : Step sha256 g op result g') (hr : r ∈ g.records) :
    (∃ r' ∈ g'.records, r'.nonce = r.nonce) ∨
      (op.isArchive = true ∧ r.terminal = true ∧
        (r.nonce ∈ g'.retention.retired ∨ g'.retention.poisoned = true)) := by
  cases h with
  | refused => exact .inl ⟨r, hr, rfl⟩
  | noted e _ _ hnoted => exact .inl ⟨r, hnoted.records.symm ▸ hr, rfl⟩
  | moved reply records hmoves =>
    obtain ⟨r', hr', hmove⟩ := exists_mem_of_forall₂ hmoves.flip r hr
    exact .inl ⟨r', hr', Moves.nonce hmove⟩
  | opened => exact .inl ⟨r, List.mem_append_left _ hr, rfl⟩
  | cut e _ hop _ hterminal _ hpoisoned => exact .inr ⟨hop, hterminal r hr, .inr hpoisoned⟩
  | archived reply _ hop _ hterminal _ hretired =>
    exact .inr ⟨hop, hterminal r hr, .inl (hretired r hr)⟩

/-- The slot is freed by the end of the record that held it. -/
theorem Step.frees (h : Step sha256 g op result g') (hheld : g.occupied = true)
    (hfree : g'.occupied = false) :
    ∃ r ∈ g.records, r.outstanding = true ∧ (op.Finishes r ∨ op.Drains r) := by
  cases h with
  | refused =>
    rw [hheld] at hfree
    cases hfree
  | noted e _ _ hnoted =>
    rw [hnoted.occupied hfree] at hheld
    cases hheld
  | moved reply records hmoves =>
    obtain ⟨⟨hpoisoned, hlost⟩, hterminal⟩ := occupied_eq_false.mp hfree
    have hany : g.records.any Record.outstanding = true := by
      rwa [Gate.occupied, show g.retention.poisoned = false from hpoisoned,
        show g.retention.authorityLost = false from hlost, Bool.false_or, Bool.false_or] at hheld
    obtain ⟨r, hr, hout⟩ := List.any_eq_true.mp hany
    obtain ⟨r', hr', hmove⟩ := exists_mem_of_forall₂ hmoves.flip r hr
    exact ⟨r, hr, hout, Moves.ended hmove hout (hterminal r' hr')⟩
  | opened reply record _ _ hwas =>
    rw [hwas] at hheld
    cases hheld
  | cut e _ _ _ _ _ hpoisoned =>
    rw [(occupied_eq_false.mp hfree).1.1] at hpoisoned
    cases hpoisoned
  | archived reply _ _ hwas =>
    rw [hwas] at hheld
    cases hheld

theorem Step.poisoned (h : Step sha256 g op result g') (hg : g.retention.poisoned = true) :
    g'.retention.poisoned = true := by
  cases h with
  | refused => exact hg
  | noted e _ _ hnoted => exact hnoted.poisoned hg
  | moved => exact hg
  | opened => exact hg
  | cut e _ _ _ _ _ hpoisoned => exact hpoisoned
  | archived reply _ _ hfree =>
    rw [(occupied_eq_false.mp hfree).1.1] at hg
    cases hg

theorem Step.error (h : Step sha256 g op result g') {stop : Stop} (hr : result = .error stop) :
    g'.records = g.records ∨
      (CutFails sha256 g op stop g' ∧ g'.records = [] ∧ g'.retention.poisoned = true) := by
  subst hr
  cases h with
  | refused => exact .inl rfl
  | noted _ _ _ hnoted => exact .inl hnoted.records
  | cut _ _ _ hcut _ hrecords hpoisoned => exact .inr ⟨hcut, hrecords, hpoisoned⟩

end Steps

/-! ## Whole runs -/

/-- A run of calls, refused ones included. -/
abbrev trace (sha256 : Bytes → Bytes) : Gate → List Op → List (Entry Gate Op Reply) :=
  Base.trace (Op.call sha256)

/-- What a call did to a record of the gate. -/
structure Follows (e : Entry Gate Op Reply) (r r' : Record) : Prop where
  caller : r'.caller = r.caller
  worker : r'.worker = r.worker
  untilMs : r'.untilMs = r.untilMs
  phase : r'.phase = r.phase ∨ PhaseMove r.phase r'.phase
  completed : r'.phase = .completed → r.phase ≠ .completed → e.op.Finishes r
  released : r'.phase = .released → r.phase ≠ .released → e.op.Drains r

theorem Moves.follows {e : Entry Gate Op Reply} {r r' : Record} (h : Moves e.op r r') :
    Follows e r r' := by
  cases h with
  | same => exact ⟨rfl, rfl, rfl, .inl rfl, fun h hne => absurd h hne, fun h hne => absurd h hne⟩
  | admitted _ _ hphase =>
    refine ⟨rfl, rfl, rfl, .inr ?_, fun h => (by cases h), fun h => (by cases h)⟩
    rw [hphase]
    exact .admitPrompt
  | completed _ _ hphase hop =>
    refine ⟨rfl, rfl, rfl, .inr ?_, fun _ _ => hop, fun h => (by cases h)⟩
    rw [hphase]
    exact .complete
  | drained hphase =>
    exact ⟨rfl, rfl, rfl, .inr (.fence hphase), fun h => (by cases h), fun h => (by cases h)⟩
  | released hphase hop =>
    exact ⟨rfl, rfl, rfl, .inr (.release (outstanding_iff.mp hphase)), fun h => (by cases h),
      fun _ _ => hop⟩

/-- **The gate is a single slot.** In every run from a gate without records: one record at most is
outstanding, nonces are unique and not those of retired requests; a record only moves along its
phases, to completed by its own caller's `finish` in time, to released when the ledger holds its
worker's lease as released, and it leaves the gate only when it has ended and is archived; the slot
is freed by these two ends alone. A call that fails leaves the records as they were, except an
archival whose checks all passed and whose cut of the journal failed: it leaves a gate without
records that is poisoned, and a poisoned gate stays occupied and refuses every later call. -/
theorem gate_single_slot (sha256 : Bytes → Bytes) (g : Gate) (hempty : g.records = [])
    (ops : List Op) : (∀ e ∈ trace sha256 g ops,
      AtMostOne Record.outstanding e.after.records ∧
      (e.after.records.map Record.nonce).Nodup ∧
      (∀ r ∈ e.after.records, r.nonce ∉ e.after.retention.retired) ∧
      (∀ r ∈ e.before.records, ∀ r' ∈ e.after.records, r'.nonce = r.nonce → Follows e r r') ∧
      (∀ r' ∈ e.after.records, (∃ r ∈ e.before.records, r.nonce = r'.nonce) ∨
        (e.op.isBegin = true ∧ r'.phase = .preparing)) ∧
      (∀ r ∈ e.before.records, (∃ r' ∈ e.after.records, r'.nonce = r.nonce) ∨
        (e.op.isArchive = true ∧ r.terminal = true ∧
          (r.nonce ∈ e.after.retention.retired ∨ e.after.retention.poisoned = true))) ∧
      (e.before.occupied = true → e.after.occupied = false → ∃ r ∈ e.before.records,
        r.outstanding = true ∧ (e.op.Finishes r ∨ e.op.Drains r)) ∧
      (∀ stop, e.result = .error stop → e.after.records = e.before.records ∨
        (CutFails sha256 e.before e.op stop e.after ∧ e.after.records = [] ∧
          e.after.retention.poisoned = true)) ∧
      (e.before.retention.poisoned = true → e.after.retention.poisoned = true)) ∧
    ∀ past e rest, trace sha256 g ops = past ++ e :: rest → e.after.retention.poisoned = true →
      e.after.occupied = true ∧
      ∀ later ∈ rest, (∃ stop, later.result = .error stop) ∧ later.after = e.after := by
  refine ⟨fun e he => ?_, fun past e rest htrace hpoisoned => ⟨?_, ?_⟩⟩
  rotate_left
  · rw [Gate.occupied, hpoisoned]
    rfl
  · obtain ⟨ops', rfl⟩ := trace_after htrace
    exact trace_stuck (call_of_poisoned sha256 hpoisoned) ops'
  obtain ⟨hbefore, hstep, hafter⟩ := trace_invariant (I := Gate.Inv) (T := Step sha256)
    (fun g op hg => by
      have hstep := call_step sha256 hg.one op
      exact ⟨hstep, hstep.inv hg⟩) (inv_of_records_nil hempty) ops e he
  exact ⟨hafter.one, hafter.nonces, hafter.retired,
    fun r hr r' hr' hnonce => (hstep.moves hbefore hr hr' hnonce).follows,
    fun r' hr' => hstep.origin hr', fun r hr => hstep.departure hr, hstep.frees,
    fun stop hstop => hstep.error hstop, hstep.poisoned⟩

/-! ## A failed cut -/

/-- A gate that has published its empty journal, where every digest is zero. -/
def Gate.fresh : Gate :=
  ⟨[], ⟨.freshResourceState, [], ∅, some (hex (zeros 32)), false, false⟩⟩

/-- The calls of a request from its start to its end. -/
def servedRequest : List Op :=
  let caller : Caller := ⟨2, 3, "boot-one", 0⟩
  let worker : Token := ⟨repeatText "a" 32, 1, repeatText "b" 32⟩
  let nonce := repeatText "0" 32
  let digest := repeatText "c" 64
  [.begin caller 5 (.begin nonce worker "fixture" digest 128 9000) 2048 2,
    .admitPrompt caller (.admitPrompt nonce worker 10 digest) 3,
    .finish caller (.finish nonce worker 10 128 digest) 4]

/-- An archival whose disk is full when the journal is cut. -/
def cutFails : Op :=
  let read : Except String String := .ok (hex (zeros 32))
  let persisted : Persisting := ⟨read, .ok (), read⟩
  .archive
    { hot := persisted
      status := read
      managerEpoch := .ok (repeatText "b" 32)
      inventory := .ok ()
      filesExhausted := .ok false
      publish := .ok ()
      readback := read
      loaded := read
      cut := { persisted with publish := .error "No space left on device (os error 28)" } }
    (hex (zeros 32))

set_option maxRecDepth 10000 in
/-- The call that fails takes the receipts with it. -/
theorem records_changed_by_error : ¬ ∀ (sha256 : Bytes → Bytes) (g : Gate) (ops : List Op),
    g.records = [] → ∀ e ∈ trace sha256 g ops, ∀ stop, e.result = .error stop →
      e.after.records = e.before.records := by
  intro h
  have hrun : ((trace (fun _ => zeros 32) .fresh (servedRequest ++ [cutFails])).any fun e =>
      !e.result.isOk && e.after.records.length != e.before.records.length) = true := by
    decide +kernel
  obtain ⟨e, he, hbad⟩ := List.any_eq_true.mp hrun
  simp only [Bool.and_eq_true, bne_iff_ne, ne_eq] at hbad
  obtain ⟨herror, hlength⟩ := hbad
  cases hresult : e.result with
  | ok reply =>
    rw [hresult] at herror
    cases herror
  | error stop => exact hlength (congrArg List.length (h _ _ _ rfl e he stop hresult))

theorem gate_single_slot_served : Gate.fresh.records = [] ∧
    (∀ e ∈ trace (fun _ => zeros 32) .fresh (servedRequest ++ [cutFails]),
      AtMostOne Record.outstanding e.after.records) ∧
    ∀ past e rest, trace (fun _ => zeros 32) .fresh (servedRequest ++ cutFails :: servedRequest) =
        past ++ e :: rest → e.after.retention.poisoned = true →
      ∀ later ∈ rest, ∃ stop, later.result = .error stop :=
  ⟨rfl, fun e he => ((gate_single_slot _ .fresh rfl _).1 e he).1,
    fun past e rest htrace hpoisoned later hlater =>
      (((gate_single_slot _ .fresh rfl _).2 past e rest htrace hpoisoned).2 later hlater).1⟩

end LumaOS.Inference
