import LumaOS.Memory.Runs
import Mathlib

/-!
# What a call that raises leaves

`Coherent` holds in every reachable ledger, also with equal watermarks and after a call that broke
off (`coherent_of_reached`). It is enough for the write loops not to raise.

A call that raises has nevertheless written something in three cases (`Spoiled`): `admit` has
recomputed a domain whose state the recomputation moves, or has taken a generation when the lease ID
cannot be had, or `update_telemetry` has stored the sample of a domain that has no quarantine epoch
left.

**`kept_iff`**: these are the only ones.
-/

namespace LumaOS.Memory.Ledger

open LumaOS.Base

variable {s t : Ledger} {d : DomainRecord} {l : ResourceLease}

/-- The records of the ledger are as they were. -/
structure Kept (s t : Ledger) : Prop where
  domains : t.domains = s.domains
  leases : t.leases = s.leases
  idempotency : t.idempotency = s.idempotency
  nextGeneration : t.nextGeneration = s.nextGeneration

theorem Kept.refl (s : Ledger) : Kept s s := ⟨rfl, rfl, rfl, rfl⟩

/-! ## The condition -/

/-- The check of `admit` lets the reservation pass. -/
def Admissible (s : Ledger) (x : MemoryReservation) : Prop :=
  ∃ d, s.domain? x.domainId = some d ∧ d.recompute.state = .healthy ∧
    d.allocatedBytes + x.bytes ≤ d.domain.allocatableBytes

/-- `admit` gets to the reservation: the ones before it pass. -/
def Examines (s : Ledger) (canonical : List MemoryReservation) (x : MemoryReservation) : Prop :=
  ∃ seen rest, canonical = seen ++ x :: rest ∧ ∀ y ∈ seen, s.Admissible y

/-- The call is an admission under a new key. -/
def Admits (s : Ledger) (op : Op) (canonical : List MemoryReservation) : Prop :=
  ∃ ownerId reservations key owner name, op = .admitLease ownerId reservations key ∧
    identifier "owner_id" ownerId = .ok owner ∧ identifier "idempotency_key" key = .ok name ∧
    canonicalReservations reservations = .ok canonical ∧ s.replay? (owner, name) = none

/-- A recomputation of the reservation's domain would write something new. -/
def Moves (s : Ledger) (x : MemoryReservation) : Prop :=
  ∃ d, s.domain? x.domainId = some d ∧ d.recompute ≠ d

/-- **What a call that raises may have written before.** -/
inductive Spoiled (s : Ledger) (op : Op) : Prop where
  | recomputed (canonical : List MemoryReservation) (x : MemoryReservation)
      (admits : Admits s op canonical) (examines : s.Examines canonical x) (moves : s.Moves x)
  | numbered (canonical : List MemoryReservation) (admits : Admits s op canonical)
      (admissible : ∀ x ∈ canonical, s.Admissible x) (left : s.nextGeneration ≠ none)
  | sampled (exhausted : Exhausted s op)

/-! ## Coherence is kept -/

/-- A write to the domains that keeps what they are and gives each its bytes. -/
theorem Coherent.mapped (hs : s.Coherent) {F : DomainRecord → DomainRecord}
    (hdomains : t.domains = s.domains.map F) (hdomain : ∀ d ∈ s.domains, (F d).domain = d.domain)
    (hwithin : ∀ d ∈ s.domains, (F d).Within)
    (hbytes : ∀ d ∈ s.domains, (F d).allocatedBytes = t.activeBytes d.id)
    (hids : (t.tokens.map ResourceLease.leaseId).Nodup) (hplaced : ∀ l ∈ t.tokens, l.Placed s) :
    t.Coherent := by
  have hid : ∀ d ∈ s.domains, (F d).id = d.id := fun d hd =>
    congrArg MemoryDomain.domainId (hdomain d hd)
  have hnames : t.domains.map DomainRecord.id = s.domains.map DomainRecord.id := by
    rw [hdomains, List.map_map]
    exact List.map_congr_left hid
  refine ⟨hnames ▸ hs.ids, ?_, ?_, hids, fun l hl => ⟨(hplaced l hl).unique, fun x hx => ?_⟩⟩
  · rw [hdomains]
    exact List.forall_mem_map.mpr hwithin
  · rw [hdomains]
    exact List.forall_mem_map.mpr fun d hd => by rw [hbytes d hd, hid d hd]
  · rw [hnames]
    exact (hplaced l hl).known x hx

/-- A write to the domains that keeps what the accounts are about. -/
theorem Coherent.rewritten (hs : s.Coherent) {F : DomainRecord → DomainRecord}
    (hdomain : ∀ d, (F d).domain = d.domain) (hbytes : ∀ d, (F d).allocatedBytes = d.allocatedBytes) :
    ({ s with domains := s.domains.map F } : Ledger).Coherent :=
  hs.mapped rfl (fun d _ => hdomain d)
    (fun d hd => by
      have := hs.within d hd
      unfold DomainRecord.Within at *
      rwa [hdomain, hbytes])
    (fun d hd => (hbytes d).trans (hs.accounted d hd)) hs.leaseIds hs.placed

theorem Coherent.writeDomain (hs : s.Coherent) {domainId : String} {f : DomainRecord → DomainRecord}
    (hdomain : ∀ d, (f d).domain = d.domain) (hbytes : ∀ d, (f d).allocatedBytes = d.allocatedBytes) :
    (s.writeDomain domainId f).Coherent :=
  hs.rewritten (F := fun d => if d.id = domainId then f d else d)
    (fun d => by
      split
      · exact hdomain d
      · rfl)
    (fun d => by
      split
      · exact hbytes d
      · rfl)

theorem Coherent.counted (hs : s.Coherent) (generation n : Nat) : (s.counted generation n).Coherent :=
  ⟨hs.ids, hs.within, hs.accounted, hs.leaseIds, fun l hl => ⟨(hs.placed l hl).unique,
    (hs.placed l hl).known⟩⟩

section Closed

variable {r : LeaseRecord} {status : LeaseStatus} {reason : String}

theorem Coherent.closed (hs : s.Coherent) (hr : r ∈ s.leases) (hactive : r.status = .active)
    (hstatus : status ≠ .active) : (s.closed r.lease status reason).Coherent := by
  have htokens : (s.closed r.lease status reason).tokens = s.tokens :=
    tokens_terminated (s := s) (l := r.lease)
  refine hs.mapped rfl (fun d _ => shifted_domain) (fun d hd => ?_) (fun d hd => ?_)
    (htokens ▸ hs.leaseIds) (htokens ▸ hs.placed)
  · have := hs.within d hd
    unfold DomainRecord.Within at *
    rw [shifted_domain, shifted_allocatedBytes fun a => Nat.sub_zero a]
    omega
  · rw [shifted_allocatedBytes fun a => Nat.sub_zero a, hs.accounted d hd]
    exact (activeBytes_closed hs hr hactive hstatus d.id).symm

end Closed

theorem Coherent.opened (hs : s.Coherent) (hl : l.Placed s) (hfits : s.Fits l)
    (hfresh : s.lease? l.leaseId = none) : (s.opened l).Coherent := by
  have htokens : (s.opened l).tokens = s.tokens ++ [l] := tokens_admitted (s := s) (l := l)
  have hnew : l.leaseId ∉ s.tokens.map ResourceLease.leaseId := by
    rw [map_leaseId]
    intro hin
    obtain ⟨r, hr, he⟩ := List.mem_map.mp hin
    exact List.find?_eq_none.mp hfresh r hr (by simpa using he)
  refine hs.mapped rfl (fun d _ => shifted_domain) (fun d hd => ?_) (fun d hd => ?_) ?_ ?_
  · unfold DomainRecord.Within
    rw [shifted_domain, shifted_allocatedBytes fun a => Nat.add_zero a]
    exact hfits d hd
  · rw [shifted_allocatedBytes fun a => Nat.add_zero a, hs.accounted d hd]
    simp [activeBytes, Ledger.opened, addLease, LeaseRecord.heldBytes]
  · rw [htokens, List.map_append]
    exact List.Nodup.append hs.leaseIds (List.nodup_singleton _) (by simpa using hnew)
  · rw [htokens]
    intro l' hl'
    rcases List.mem_append.mp hl' with hold | hone
    · exact hs.placed l' hold
    · rw [List.mem_singleton.mp hone]
      exact hl

/-! ## Calls that are no admission -/

/-- A method that leaves a coherent ledger, and raises before it writes. -/
def Whole {α : Type} (s : Ledger) (r : Except Fault α) (t : Ledger) : Prop :=
  t.Coherent ∧ ∀ f, r = .error f → t = s

theorem whole_refused (hs : s.Coherent) {α : Type} {f : Fault} :
    Whole s (.error f : Except Fault α) s := ⟨hs, fun _ _ => rfl⟩

theorem whole_ok {α : Type} {a : α} (ht : t.Coherent) : Whole s (.ok a : Except Fault α) t :=
  ⟨ht, fun _ h => by cases h⟩

/-- A domain that is there can be read. -/
theorem ends_snapshotOf_known {domainId : String}
    (h : domainId ∈ s.domains.map DomainRecord.id) :
    Proc.Ends (snapshotOf domainId) s fun r t => t = s ∧ ∃ a, r = .ok a := by
  obtain ⟨d, hd⟩ := exists_domain? h
  exact Proc.ends_bind_get (Proc.ends_bind_lift_ok (item_domain? hd) ⟨rfl, _, rfl⟩)

theorem whole_release (hs : s.Coherent) (lease : LeaseArg) (generation ownerId : Arg) :
    Proc.Ends (release lease generation ownerId) s (Whole s) := by
  unfold release
  refine Proc.ends_bind_get (Proc.ends_bind_gives gives_lookup (fun e _ => whole_refused hs)
    fun r hr => ?_)
  split
  · exact whole_ok hs
  · refine Proc.ends_bind_raiseIf (fun _ => whole_refused hs) fun hactive => ?_
    have hactive : r.status = .active := by simpa using hactive
    exact Proc.ends_bind_ok (exec_closed hs hr hactive) (whole_ok (hs.closed hr hactive (by decide)))

/-- What is left to revoke. -/
structure Pending (t : Ledger) (rest : List LeaseRecord) : Prop where
  coherent : t.Coherent
  distinct : (rest.map fun r => r.lease.leaseId).Nodup
  active : ∀ r ∈ rest, r ∈ t.leases ∧ r.status = .active

theorem Pending.closed {x : LeaseRecord} {xs : List LeaseRecord} {reason : String}
    (h : Pending t (x :: xs)) : Pending (t.closed x.lease .revoked reason) xs := by
  obtain ⟨hx, hactive⟩ := h.active x List.mem_cons_self
  obtain ⟨hfresh, hxs⟩ := List.nodup_cons.mp h.distinct
  refine ⟨h.coherent.closed hx hactive (by decide), hxs, fun r hr => ?_⟩
  obtain ⟨hin, hr'⟩ := h.active r (List.mem_cons_of_mem x hr)
  have hne : r.lease.leaseId ≠ x.lease.leaseId := fun he =>
    hfresh (List.mem_map.mpr ⟨r, hr, he⟩)
  exact ⟨List.mem_map.mpr ⟨r, hin, if_neg hne⟩, hr'⟩

/-- `_quarantine_locked` raises only when no epoch is left, and before it writes. -/
theorem ends_quarantineLocked_coherent (hs : s.Coherent) {domainId : String} (reason : String)
    (hd : s.domain? domainId = some d) :
    Proc.Ends (quarantineLocked domainId reason) s fun r t =>
      t.Coherent ∧ t.domains.map DomainRecord.id = s.domains.map DomainRecord.id ∧
        ∀ f, r = .error f → t = s ∧ d.state ≠ .quarantined ∧ d.quarantineEpoch = maxU64 := by
  unfold quarantineLocked
  refine Proc.ends_bind_get (Proc.ends_bind_lift_ok (item_domain? hd) ?_)
  split
  · exact ⟨hs, rfl, fun f h => by cases h⟩
  rename_i hopen
  refine Proc.ends_bind_raiseIf (fun hmax => ⟨hs, rfl, fun _ _ => ⟨rfl, hopen, ?_⟩⟩) fun _ =>
    Proc.ends_bind_modify ?_
  · simpa using hmax
  -- the target is marked, and then its active leases are revoked one by one
  have hmarked : (s.writeDomain domainId (marked reason)).Coherent :=
    hs.writeDomain (fun _ => rfl) fun _ => rfl
  have hnames : (s.writeDomain domainId (marked reason)).domains.map DomainRecord.id =
      s.domains.map DomainRecord.id := ids_writeDomain fun _ => rfl
  have hstart : Pending (s.writeDomain domainId (marked reason)) (s.affected domainId) := by
    refine ⟨hmarked, ?_, fun r hr => ?_⟩
    · have hids := hs.leaseIds
      rw [map_leaseId] at hids
      exact hids.sublist (List.filter_sublist.map _)
    · obtain ⟨hin, hcond⟩ := List.mem_filter.mp hr
      simp only [Bool.and_eq_true, beq_iff_eq] at hcond
      exact ⟨hin, hcond.1⟩
  refine Proc.ends_bind ((Proc.ends_forM (I := fun t rest => Pending t rest ∧
    t.domains.map DomainRecord.id = s.domains.map DomainRecord.id) (fun t x xs h => ?_)
      ⟨hstart, hnames⟩).mono ?_)
  · obtain ⟨hx, hactive⟩ := h.1.active x List.mem_cons_self
    refine Proc.ends_of_exec (exec_closed h.1.coherent hx hactive) ⟨rfl, h.1.closed, ?_⟩
    rw [← h.2]
    unfold Ledger.closed
    rw [List.map_map]
    exact List.map_congr_left fun _ _ => shifted_id
  · rintro r t ⟨rfl, ht, hsame⟩
    refine ⟨fun _ _ => Proc.ends_bind_modify ⟨?_, ?_, fun f h => by cases h⟩, fun e he => by cases he⟩
    · exact ht.coherent.writeDomain (fun _ => rfl) fun _ => rfl
    · exact (ids_writeDomain (f := quarantined reason) fun _ => rfl).trans hsame

theorem whole_quarantine (hs : s.Coherent) (domainId reason : Arg) :
    Proc.Ends (quarantine domainId reason) s (Whole s) := by
  unfold quarantine
  refine Proc.ends_bind_lift (fun e _ => whole_refused hs) fun name _ => ?_
  refine Proc.ends_bind_lift (fun e _ => whole_refused hs) fun text _ => Proc.ends_bind_get ?_
  refine Proc.ends_bind_gives (gives_found plain_invalid) (fun e _ => whole_refused hs) fun d hd => ?_
  refine (ends_quarantineLocked_coherent hs text hd).mono ?_
  rintro r t ⟨ht, -, herror⟩
  exact ⟨ht, fun f hf => (herror f hf).1⟩

/-- A recomputation of a domain that was just written to. -/
theorem exec_recompute_written (hs : s.Coherent) {domainId : String}
    {f : DomainRecord → DomainRecord} (hdomain : ∀ d, (f d).domain = d.domain)
    (hbytes : ∀ d, (f d).allocatedBytes = d.allocatedBytes) (hd : s.domain? domainId = some d) :
    ∃ t, Proc.exec (recompute domainId) (s.writeDomain domainId f) = (.ok (f d).recompute, t) ∧
      t.Coherent ∧ t.domains.map DomainRecord.id = s.domains.map DomainRecord.id :=
  ⟨_, exec_recompute_write hdomain hbytes hs.ids (hs.within d (domain?_eq_some hd).1) hd,
    hs.writeDomain (fun d => DomainRecord.recompute_domain.trans (hdomain d))
      fun d => DomainRecord.recompute_allocatedBytes.trans (hbytes d),
    ids_writeDomain fun d => congrArg MemoryDomain.domainId
      (DomainRecord.recompute_domain.trans (hdomain d))⟩

theorem whole_clearQuarantine (hs : s.Coherent) (domainId expectedEpoch : Arg) :
    Proc.Ends (clearQuarantine domainId expectedEpoch) s (Whole s) := by
  unfold clearQuarantine
  refine Proc.ends_bind_lift (fun e _ => whole_refused hs) fun name _ => ?_
  refine Proc.ends_bind_lift (fun e _ => whole_refused hs) fun epoch _ => Proc.ends_bind_get ?_
  refine Proc.ends_bind_gives (gives_found plain_invalid) (fun e _ => whole_refused hs) fun d hd => ?_
  refine Proc.ends_bind_raiseIf (fun _ => whole_refused hs) fun _ => ?_
  refine Proc.ends_bind_raiseIf (fun _ => whole_refused hs) fun _ => Proc.ends_bind_modify ?_
  obtain ⟨t, hexec, ht, hnames⟩ := exec_recompute_written (f := cleared) hs (fun _ => rfl)
    (fun _ => rfl) hd
  refine Proc.ends_bind_ok hexec ((ends_snapshotOf_known ?_).mono ?_)
  · obtain ⟨hmem, rfl⟩ := domain?_eq_some hd
    rw [hnames]
    exact List.mem_map_of_mem hmem
  · rintro r u ⟨rfl, a, rfl⟩
    exact whole_ok ht

/-! ## Telemetry -/

/-- A new sample is stored, so that the domains are not what they were. -/
theorem not_kept_sampled {x : TelemetrySample} (hd : s.domain? x.domainId = some d)
    (hnew : d.lastTelemetry ≠ some x) :
    ¬Kept s (s.writeDomain x.domainId (Ledger.sampled x)) := by
  intro h
  obtain ⟨hmem, hid⟩ := domain?_eq_some hd
  have hall : ∀ e ∈ s.domains, (if e.id = x.domainId then Ledger.sampled x e else e) = e :=
    List.map_inj_left.mp (h.domains.trans (List.map_id s.domains).symm)
  have hsame := hall d hmem
  rw [if_pos hid] at hsame
  exact hnew (congrArg DomainRecord.lastTelemetry hsame).symm

theorem not_exhausted_of_domain {x : TelemetrySample} (h : s.domain? x.domainId = none) :
    ¬Exhausted s (.updateTelemetry (some x)) := by
  rintro ⟨y, d, hop, hd, -⟩
  cases hop
  rw [h] at hd
  cases hd

/-- The health check after a sample was stored. -/
theorem ends_assess (hs : s.Coherent) {x : TelemetrySample} (hd : s.domain? x.domainId = some d)
    (hsequence : checkSequence d.lastTelemetry x = .ok ()) (hnew : d.lastTelemetry ≠ some x) :
    Proc.Ends (assess d.domain x) (s.writeDomain x.domainId (Ledger.sampled x)) fun r t =>
      t.Coherent ∧ t.domains.map DomainRecord.id = s.domains.map DomainRecord.id ∧
        ∀ f, r = .error f → ¬Kept s t ∧ Exhausted s (.updateTelemetry (some x)) := by
  have hwritten : (s.writeDomain x.domainId (Ledger.sampled x)).Coherent :=
    hs.writeDomain (fun _ => rfl) fun _ => rfl
  have hnames : (s.writeDomain x.domainId (Ledger.sampled x)).domains.map DomainRecord.id =
      s.domains.map DomainRecord.id := ids_writeDomain fun _ => rfl
  have hd' : (s.writeDomain x.domainId (Ledger.sampled x)).domain? x.domainId =
      some (Ledger.sampled x d) := domain?_writeDomain hs.ids (fun _ => rfl) hd
  have hlocked : (x.totalBytes < d.domain.budgetBytes ∨ x.deviceError = true) → ∀ reason,
      Proc.Ends (do let _ ← quarantineLocked x.domainId reason)
        (s.writeDomain x.domainId (Ledger.sampled x)) fun r t =>
          t.Coherent ∧ t.domains.map DomainRecord.id = s.domains.map DomainRecord.id ∧
            ∀ f, r = .error f → ¬Kept s t ∧ Exhausted s (.updateTelemetry (some x)) := by
    intro hcause reason
    refine Proc.ends_bind ((ends_quarantineLocked_coherent hwritten reason hd').mono ?_)
    rintro r t ⟨ht, hsame, herror⟩
    refine ⟨fun _ _ => ⟨ht, hsame.trans hnames, fun f h => by cases h⟩, fun e he =>
      ⟨ht, hsame.trans hnames, fun f _ => ?_⟩⟩
    obtain ⟨rfl, hstate, hepoch⟩ := herror e he
    exact ⟨not_kept_sampled hd hnew, x, d, rfl, hd, hsequence, hnew, hcause, hstate, hepoch⟩
  unfold assess
  split
  · rename_i hcapacity
    exact hlocked (.inl hcapacity) _
  split
  · rename_i hdevice
    exact hlocked (.inr hdevice) _
  · obtain ⟨t, hexec, ht, hsame⟩ := exec_recompute_written (f := Ledger.sampled x) hs
      (fun _ => rfl) (fun _ => rfl) hd
    exact Proc.ends_bind_ok hexec ⟨ht, hsame, fun f h => by cases h⟩

/-- `update_telemetry` raises before it writes, or leaves the sample. -/
theorem ends_updateTelemetry_coherent (hs : s.Coherent) (sample : Option TelemetrySample) :
    Proc.Ends (updateTelemetry sample) s fun r t => t.Coherent ∧ ∀ f, r = .error f →
      (t = s ∧ ¬Exhausted s (.updateTelemetry sample)) ∨
        (¬Kept s t ∧ Exhausted s (.updateTelemetry sample)) := by
  cases sample with
  | none => exact ⟨hs, fun _ _ => .inl ⟨rfl, fun ⟨_, _, hop, _⟩ => by cases hop⟩⟩
  | some x =>
    unfold updateTelemetry
    refine Proc.ends_bind_lift_ok rfl (Proc.ends_bind_get ?_)
    cases hd : s.domain? x.domainId with
    | none => exact ⟨hs, fun _ _ => .inl ⟨rfl, not_exhausted_of_domain hd⟩⟩
    | some d =>
      have hknown : x.domainId ∈ s.domains.map DomainRecord.id := by
        obtain ⟨hmem, hid⟩ := domain?_eq_some hd
        exact hid ▸ List.mem_map_of_mem hmem
      refine Proc.ends_bind_lift_ok rfl (Proc.ends_bind_lift (fun e he => ?_) fun _ hsequence => ?_)
      · refine ⟨hs, fun _ _ => .inl ⟨rfl, ?_⟩⟩
        rintro ⟨y, d', hop, hd', hok, -⟩
        cases hop
        rw [hd] at hd'
        cases hd'
        rw [he] at hok
        cases hok
      split
      · refine (ends_snapshotOf_known hknown).mono ?_
        rintro r t ⟨rfl, a, rfl⟩
        exact ⟨hs, fun f h => by cases h⟩
      rename_i hnew
      refine Proc.ends_bind_modify (Proc.ends_bind ((ends_assess hs hd hsequence hnew).mono ?_))
      rintro r t ⟨ht, hnames, herror⟩
      refine ⟨fun _ _ => (ends_snapshotOf_known (hnames ▸ hknown)).mono ?_, fun e he =>
        ⟨ht, fun _ _ => .inr (herror e he)⟩⟩
      rintro r u ⟨rfl, a, rfl⟩
      exact ⟨ht, fun f h => by cases h⟩

/-! ## Admission -/

section Admission

variable {x : MemoryReservation} {seen : List MemoryReservation}

/-- The domain after the loop of `admit` went over the reservations. -/
def looked (seen : List MemoryReservation) (d : DomainRecord) : DomainRecord :=
  if d.id ∈ seen.map (·.domainId) then d.recompute else d

/-- The ledger then. -/
def refreshed (seen : List MemoryReservation) (s : Ledger) : Ledger :=
  { s with domains := s.domains.map (looked seen) }

@[simp] theorem looked_domain : (looked seen d).domain = d.domain := by
  unfold looked
  split
  · exact DomainRecord.recompute_domain
  · rfl

theorem looked_id : (looked seen d).id = d.id := congrArg MemoryDomain.domainId looked_domain

@[simp] theorem looked_allocatedBytes : (looked seen d).allocatedBytes = d.allocatedBytes := by
  unfold looked
  split
  · exact DomainRecord.recompute_allocatedBytes
  · rfl

theorem looked_of_not_mem (h : d.id ∉ seen.map (·.domainId)) : looked seen d = d := if_neg h

theorem looked_snoc (h : d.id ≠ x.domainId) : looked (seen ++ [x]) d = looked seen d := by
  unfold looked
  rw [List.map_append]
  simp [h]

theorem looked_snoc_self (h : d.id = x.domainId) : looked (seen ++ [x]) d = d.recompute := by
  unfold looked
  rw [List.map_append]
  simp [h]

theorem refreshed_nil : refreshed [] s = s := by
  have hmap : s.domains.map (looked []) = s.domains := by
    refine List.map_id'' (fun d => ?_) _
    exact looked_of_not_mem List.not_mem_nil
  unfold refreshed
  rw [hmap]

theorem Coherent.refreshed (hs : s.Coherent) : (s.refreshed seen).Coherent :=
  hs.rewritten (fun _ => looked_domain) fun _ => looked_allocatedBytes

theorem domain?_refreshed (hs : s.Coherent) {domainId : String} (hd : s.domain? domainId = some d) :
    (s.refreshed seen).domain? domainId = some (looked seen d) := by
  obtain ⟨hmem, rfl⟩ := domain?_eq_some hd
  have hin : looked seen d ∈ (s.refreshed seen).domains := List.mem_map_of_mem hmem
  have hfound := domain?_of_mem hs.refreshed.ids hin
  rwa [looked_id] at hfound

theorem domain?_refreshed_eq_none {domainId : String} (hd : s.domain? domainId = none) :
    (s.refreshed seen).domain? domainId = none := by
  refine List.find?_eq_none.mpr fun e he => ?_
  obtain ⟨d, hmem, rfl⟩ := List.mem_map.mp he
  rw [looked_id]
  exact List.find?_eq_none.mp hd d hmem

/-- The loop has left the domains alone exactly when a recomputation moves none of them. -/
theorem kept_refreshed_iff (hs : s.Coherent) :
    Kept s (s.refreshed seen) ↔ ∀ x ∈ seen, ¬s.Moves x := by
  constructor
  · rintro h x hx ⟨d, hd, hmoved⟩
    obtain ⟨hmem, hid⟩ := domain?_eq_some hd
    have hall := List.map_inj_left.mp (h.domains.trans (List.map_id s.domains).symm) d hmem
    have hin : d.id ∈ seen.map (·.domainId) := List.mem_map.mpr ⟨x, hx, hid.symm⟩
    exact hmoved ((if_pos hin).symm.trans hall)
  · intro h
    refine ⟨?_, rfl, rfl, rfl⟩
    refine (List.map_congr_left fun d hmem => ?_).trans (List.map_id s.domains)
    by_cases hin : d.id ∈ seen.map (·.domainId)
    · obtain ⟨x, hx, hid⟩ := List.mem_map.mp hin
      have hd : s.domain? x.domainId = some d := hid ▸ domain?_of_mem hs.ids hmem
      have hstill : d.recompute = d := by
        by_contra hmoved
        exact h x hx ⟨d, hd, hmoved⟩
      exact (if_pos hin).trans hstill
    · exact looked_of_not_mem hin

theorem refreshed_snoc_unknown (h : s.domain? x.domainId = none) :
    s.refreshed (seen ++ [x]) = s.refreshed seen := by
  have hmap : s.domains.map (looked (seen ++ [x])) = s.domains.map (looked seen) := by
    refine List.map_congr_left fun d hmem => looked_snoc fun hid => ?_
    exact List.find?_eq_none.mp h d hmem (beq_iff_eq.mpr hid)
  unfold refreshed
  rw [hmap]

theorem refreshed_snoc (hnew : x.domainId ∉ seen.map (·.domainId)) :
    (s.refreshed seen).writeDomain x.domainId DomainRecord.recompute = s.refreshed (seen ++ [x]) := by
  unfold refreshed Ledger.writeDomain
  rw [List.map_map]
  have hmap : s.domains.map ((fun d => if d.id = x.domainId then d.recompute else d) ∘ looked seen) =
      s.domains.map (looked (seen ++ [x])) := by
    refine List.map_congr_left fun d _ => ?_
    rw [Function.comp_apply, looked_id]
    by_cases hid : d.id = x.domainId
    · rw [if_pos hid, looked_snoc_self hid, looked_of_not_mem (hid ▸ hnew)]
    · rw [if_neg hid, looked_snoc hid]
  rw [hmap]

/-- What a turn of the loop of `admit` comes to. -/
def Judges (s : Ledger) (x : MemoryReservation) (r : Except Fault (String × Nat)) : Prop :=
  (s.Admissible x ∧ r = .ok (x.domainId, s.allocatedIn x.domainId + x.bytes)) ∨
    (¬s.Admissible x ∧ ∃ e, r = .error e)

theorem ends_prospect (hs : s.Coherent) (hnew : x.domainId ∉ seen.map (·.domainId)) :
    Proc.Ends (prospect x) (s.refreshed seen) fun r t => t = s.refreshed (seen ++ [x]) ∧
      Judges s x r := by
  unfold prospect
  refine Proc.ends_bind_get ?_
  cases hd : s.domain? x.domainId with
  | none =>
    rw [domain?_refreshed_eq_none hd, refreshed_snoc_unknown hd]
    refine ⟨rfl, .inr ⟨?_, _, rfl⟩⟩
    rintro ⟨d, hd', -⟩
    rw [hd] at hd'
    cases hd'
  | some d =>
    obtain ⟨hmem, hid⟩ := domain?_eq_some hd
    have hlooked : looked seen d = d := looked_of_not_mem (hid ▸ hnew)
    have hd' : (s.refreshed seen).domain? x.domainId = some d := by
      rw [domain?_refreshed hs hd, hlooked]
    have hexec : Proc.exec (recompute x.domainId) (s.refreshed seen) =
        (.ok d.recompute, s.refreshed (seen ++ [x])) := by
      rw [← refreshed_snoc hnew, ← hid]
      exact exec_recompute_within hs.refreshed.ids (domain?_eq_some hd').1 (hs.within d hmem)
    have hbytes : s.allocatedIn x.domainId = d.allocatedBytes := by
      unfold allocatedIn
      rw [hd]
      rfl
    have hadmissible : s.Admissible x ↔ d.recompute.state = .healthy ∧
        d.allocatedBytes + x.bytes ≤ d.domain.allocatableBytes := by
      unfold Admissible
      rw [hd]
      simp
    have hrefused : ∀ {e : Fault}, ¬s.Admissible x →
        s.refreshed (seen ++ [x]) = s.refreshed (seen ++ [x]) ∧ Judges s x (.error e) :=
      fun h => ⟨rfl, .inr ⟨h, _, rfl⟩⟩
    rw [hd']
    refine Proc.ends_bind_lift_ok rfl (Proc.ends_bind_ok hexec ?_)
    refine Proc.ends_bind_raiseIf (fun hstate => hrefused fun h => ?_) fun hquarantined => ?_
    · rw [(hadmissible.mp h).1] at hstate
      cases hstate
    refine Proc.ends_bind_raiseIf (fun hstate => hrefused fun h => ?_) fun hpressure => ?_
    · rw [(hadmissible.mp h).1] at hstate
      cases hstate
    have hhealthy : d.recompute.state = .healthy := by
      cases hstate : d.recompute.state with
      | healthy => rfl
      | pressure =>
        rw [hstate] at hpressure
        cases hpressure
      | quarantined =>
        rw [hstate] at hquarantined
        cases hquarantined
    rw [DomainRecord.recompute_allocatedBytes, DomainRecord.recompute_domain]
    refine Proc.ends_bind_lift (fun e he => hrefused fun h => ?_) fun n hn => ?_
    · have hfits := (hadmissible.mp h).2
      have hbudget := d.domain.budget
      have hle : d.domain.allocatableBytes ≤ d.domain.budgetBytes := Nat.sub_le _ _
      rw [checkedAddBytes_ok (by omega)] at he
      cases he
    obtain rfl := checkedAddBytes_eq_ok hn
    refine Proc.ends_bind_raiseIf (fun hover => hrefused fun h => ?_) fun hfits => ?_
    · have := of_decide_eq_true hover
      have := (hadmissible.mp h).2
      omega
    · have hfits := of_decide_eq_false hfits
      refine ⟨rfl, .inl ⟨hadmissible.mpr ⟨hhealthy, by omega⟩, ?_⟩⟩
      rw [hbytes]
      rfl

/-! ### The whole loop -/

/-- The loop so far: what it went over was admissible. -/
def Passed (s : Ledger) (canonical : List MemoryReservation) (t : Ledger)
    (rest : List MemoryReservation) : Prop :=
  ∃ seen, canonical = seen ++ rest ∧ (∀ y ∈ seen, s.Admissible y) ∧ t = s.refreshed seen

/-- The loop stopped at a reservation that is not admissible. -/
def Stopped (s : Ledger) (canonical : List MemoryReservation) (t : Ledger) : Prop :=
  ∃ seen x rest, canonical = seen ++ x :: rest ∧ (∀ y ∈ seen, s.Admissible y) ∧ ¬s.Admissible x ∧
    t = s.refreshed (seen ++ [x])

/-- The entry of `prospective` for an admissible reservation. -/
def Prospect (s : Ledger) (x : MemoryReservation) (v : String × Nat) : Prop :=
  s.Admissible x ∧ v = (x.domainId, s.allocatedIn x.domainId + x.bytes)

variable {canonical : List MemoryReservation}

theorem ends_prospects (hs : s.Coherent) (hunique : (canonical.map (·.domainId)).Nodup) :
    Proc.Ends (canonical.mapM prospect) s fun r t =>
      (∀ bs, r = .ok bs → List.Forall₂ (Prospect s) canonical bs ∧ t = s.refreshed canonical) ∧
      ∀ e, r = .error e → Stopped s canonical t := by
  have hstart : Passed s canonical s canonical :=
    ⟨[], rfl, fun y hy => absurd hy List.not_mem_nil, refreshed_nil.symm⟩
  refine (Proc.ends_mapM_raising (I := Passed s canonical) (J := Stopped s canonical)
    (Q := Prospect s) (fun t x xs ht => ?_) hstart).mono ?_
  · obtain ⟨seen, hseen, hall, rfl⟩ := ht
    have hnew : x.domainId ∉ seen.map (·.domainId) := by
      rw [hseen, List.map_append, List.map_cons] at hunique
      exact fun hin => List.disjoint_of_nodup_append hunique hin List.mem_cons_self
    refine (ends_prospect hs hnew).mono ?_
    rintro r t ⟨rfl, ⟨hadmissible, rfl⟩ | ⟨hrefused, e, rfl⟩⟩
    · refine ⟨fun b hb => ?_, fun e h => by cases h⟩
      cases hb
      refine ⟨⟨hadmissible, rfl⟩, seen ++ [x], by rw [hseen, List.append_assoc]; rfl, ?_, rfl⟩
      intro y hy
      rcases List.mem_append.mp hy with hold | hone
      · exact hall y hold
      · exact List.mem_singleton.mp hone ▸ hadmissible
    · exact ⟨fun b h => (by cases h), fun _ _ => ⟨seen, x, xs, hseen, hall, hrefused, rfl⟩⟩
  · rintro r t ⟨hok, herror⟩
    refine ⟨fun bs hbs => ?_, herror⟩
    obtain ⟨hvalues, seen, hseen, -, rfl⟩ := hok bs hbs
    rw [List.append_nil] at hseen
    exact ⟨hvalues, by rw [hseen]⟩

/-- What the loop stopped at tells whether it has changed something. -/
theorem Stopped.sameState_iff (hs : s.Coherent) (h : Stopped s canonical t) :
    Kept s t ↔ ∀ x, s.Examines canonical x → ¬s.Moves x := by
  obtain ⟨seen, x, rest, rfl, hseen, hx, rfl⟩ := h
  rw [kept_refreshed_iff hs]
  constructor
  · rintro hstill y ⟨seen', rest', heq, hseen'⟩
    refine hstill y ?_
    -- a reservation after `x` is examined only if `x` was admissible
    rcases List.append_eq_append_iff.mp heq with ⟨mid, hmid, hrest⟩ | ⟨mid, hmid, hrest⟩
    · cases mid with
      | nil =>
        cases hrest
        exact List.mem_append_right _ List.mem_cons_self
      | cons z mid =>
        obtain ⟨rfl, -⟩ := List.cons.inj hrest
        rw [hmid] at hseen'
        exact absurd (hseen' x (List.mem_append_right _ List.mem_cons_self)) hx
    · cases mid with
      | nil =>
        cases hrest
        exact List.mem_append_right _ List.mem_cons_self
      | cons z mid =>
        obtain ⟨rfl, -⟩ := List.cons.inj hrest
        rw [hmid]
        exact List.mem_append_left _ (List.mem_append_right _ List.mem_cons_self)
  · intro hstill y hy
    rcases List.mem_append.mp hy with hold | hone
    · obtain ⟨before, after, rfl⟩ := List.append_of_mem hold
      refine hstill y ⟨before, after ++ x :: rest, by simp, fun z hz => ?_⟩
      exact hseen z (List.mem_append_left _ hz)
    · rw [List.mem_singleton.mp hone]
      exact hstill x ⟨seen, rest, rfl, hseen⟩

/-! ### A new lease -/

/-- What `admit` may have written for a new key when it raises. -/
def Broken (s : Ledger) (canonical : List MemoryReservation) : Prop :=
  (∃ x, s.Examines canonical x ∧ s.Moves x) ∨
    ((∀ x ∈ canonical, s.Admissible x) ∧ s.nextGeneration ≠ none)

theorem Stopped.kept_iff_broken (hs : s.Coherent) (h : Stopped s canonical t) :
    Kept s t ↔ ¬s.Broken canonical := by
  rw [h.sameState_iff hs]
  obtain ⟨seen, x, rest, rfl, hseen, hx, -⟩ := h
  constructor
  · rintro hstill (⟨y, hexamines, hmoves⟩ | ⟨hall, -⟩)
    · exact hstill y hexamines hmoves
    · exact hx (hall x (List.mem_append_right _ List.mem_cons_self))
  · exact fun h y hexamines hmoves => h (.inl ⟨y, hexamines, hmoves⟩)

/-- Without a generation, the loop is all there was. -/
theorem kept_refreshed_iff_broken (hs : s.Coherent) (hall : ∀ x ∈ canonical, s.Admissible x)
    (hnone : s.nextGeneration = none) : Kept s (s.refreshed canonical) ↔ ¬s.Broken canonical := by
  rw [kept_refreshed_iff hs]
  constructor
  · rintro hstill (⟨x, ⟨seen, rest, rfl, -⟩, hmoves⟩ | ⟨-, hleft⟩)
    · exact hstill x (List.mem_append_right _ List.mem_cons_self) hmoves
    · exact hleft hnone
  · intro h x hx hmoves
    obtain ⟨seen, rest, rfl⟩ := List.append_of_mem hx
    refine h (.inl ⟨x, ⟨seen, rest, rfl, fun y hy => ?_⟩, hmoves⟩)
    exact hall y (List.mem_append_left _ hy)

theorem not_kept_counted {generation n : Nat} (hnext : s.nextGeneration = some generation)
    (h : t.nextGeneration = (s.counted generation n).nextGeneration) : ¬Kept s t := by
  intro hkept
  have hsame := h.symm.trans (hkept.nextGeneration.trans hnext)
  obtain ⟨hgeneration, -⟩ := counted_next hsame
  exact Nat.succ_ne_self generation hgeneration.symm

theorem admissible_of_prospects {bs : List (String × Nat)}
    (h : List.Forall₂ (Prospect s) canonical bs) : (∀ x ∈ canonical, s.Admissible x) ∧
      bs = canonical.map fun x => (x.domainId, s.allocatedIn x.domainId + x.bytes) := by
  induction h with
  | nil => exact ⟨fun x hx => absurd hx List.not_mem_nil, rfl⟩
  | cons hx _ ih =>
    refine ⟨List.forall_mem_cons.mpr ⟨hx.1, ih.1⟩, ?_⟩
    rw [List.map_cons, ← hx.2, ih.2]

/-- A recomputation does not change what is allocated. -/
theorem allocatedIn_refreshed (hs : s.Coherent) {seen : List MemoryReservation} (domainId : String) :
    (s.refreshed seen).allocatedIn domainId = s.allocatedIn domainId := by
  unfold allocatedIn
  cases hd : s.domain? domainId with
  | none => rw [domain?_refreshed_eq_none hd]
  | some d =>
    rw [domain?_refreshed hs hd]
    exact looked_allocatedBytes

/-- There is room for what is admissible. -/
theorem fits_of_admissible (hs : s.Coherent) (hunique : (l.reservations.map (·.domainId)).Nodup)
    (hall : ∀ x ∈ l.reservations, s.Admissible x) : l.Placed s ∧ s.Fits l := by
  refine ⟨⟨hunique, fun x hx => ?_⟩, fun d hd => ?_⟩
  · obtain ⟨d, hd, -⟩ := hall x hx
    obtain ⟨hmem, hid⟩ := domain?_eq_some hd
    exact List.mem_map.mpr ⟨d, hmem, hid⟩
  · by_cases hin : d.id ∈ l.reservations.map (·.domainId)
    · obtain ⟨x, hx, hid⟩ := List.mem_map.mp hin
      obtain ⟨e, he, -, hfits⟩ := hall x hx
      rw [hid, domain?_of_mem hs.ids hd] at he
      cases he
      rw [← hid, ResourceLease.bytesFor_of_mem hunique hx]
      exact hfits
    · rw [ResourceLease.bytesFor_eq_zero hin]
      exact hs.within d hd

theorem placed_refreshed (h : l.Placed s) : l.Placed (s.refreshed canonical) := by
  refine ⟨h.unique, fun x hx => ?_⟩
  unfold Ledger.refreshed
  rw [List.map_map]
  have hmap : s.domains.map (DomainRecord.id ∘ looked canonical) = s.domains.map DomainRecord.id :=
    List.map_congr_left fun _ _ => looked_id
  rw [hmap]
  exact h.known x hx

theorem Fits.refreshed (h : s.Fits l) : (s.refreshed canonical).Fits l := by
  intro e he
  obtain ⟨d, hd, rfl⟩ := List.mem_map.mp he
  rw [looked_allocatedBytes, looked_domain, looked_id]
  exact h d hd

/-- **What `admit` leaves for a new key when it raises.** -/
theorem ends_admitNew_coherent (hs : s.Coherent) {ownerId idempotencyKey : String}
    (hunique : (canonical.map (·.domainId)).Nodup) :
    Proc.Ends (admitNew ownerId idempotencyKey canonical) s fun r t => t.Coherent ∧
      ∀ f, r = .error f → (Kept s t ↔ ¬s.Broken canonical) := by
  unfold admitNew
  refine Proc.ends_bind ((ends_prospects hs hunique).mono ?_)
  rintro r t ⟨hok, herror⟩
  refine ⟨fun prospective hp => ?_, fun e he => ⟨?_, fun _ _ => (herror e he).kept_iff_broken hs⟩⟩
  · obtain ⟨hvalues, rfl⟩ := hok prospective hp
    obtain ⟨hall, rfl⟩ := admissible_of_prospects hvalues
    cases hnext : s.nextGeneration with
    | none =>
      have hexec : Proc.exec takeGeneration (s.refreshed canonical) = (.error (fault .byteArithmetic
          "lease generation space is exhausted"), s.refreshed canonical) := by
        have hnext' : (s.refreshed canonical).nextGeneration = none := hnext
        unfold takeGeneration
        rw [Proc.exec_bind_get, hnext']
        rfl
      refine Proc.ends_bind (Proc.ends_of_exec hexec ⟨fun _ h => (by cases h), fun _ _ => ?_⟩)
      exact ⟨hs.refreshed, fun _ _ => kept_refreshed_iff_broken hs hall hnext⟩
    | some generation =>
      have hbroken : s.Broken canonical := .inr ⟨hall, by rw [hnext]; exact Option.some_ne_none _⟩
      have hexec : Proc.exec takeGeneration (s.refreshed canonical) = (.ok generation,
          (s.refreshed canonical).counted generation (s.refreshed canonical).drawn) := by
        have hnext' : (s.refreshed canonical).nextGeneration = some generation := hnext
        unfold takeGeneration
        rw [Proc.exec_bind_get, hnext']
        rfl
      refine Proc.ends_bind_ok hexec (Proc.ends_bind ((ends_newLeaseId 32 _).mono ?_))
      rintro r u ⟨⟨n, rfl⟩, hr⟩
      have hcounted : ((s.refreshed canonical).counted generation n).Coherent :=
        hs.refreshed.counted generation n
      have hspent : ¬Kept s ((s.refreshed canonical).counted generation n) :=
        not_kept_counted (n := n) hnext rfl
      have hraised : ∀ f : Fault, ((s.refreshed canonical).counted generation n).Coherent ∧
          ∀ f', (.error f : Except Fault ResourceLease) = .error f' →
            (Kept s ((s.refreshed canonical).counted generation n) ↔ ¬s.Broken canonical) :=
        fun _ => ⟨hcounted, fun _ _ => ⟨fun h => absurd h hspent, fun h => absurd hbroken h⟩⟩
      refine ⟨fun leaseId hid => ?_, fun e _ => hraised e⟩
      subst hid
      refine Proc.ends_bind_lift (fun e _ => hraised e) fun _ _ =>
        Proc.ends_bind_modify (Proc.ends_bind_modify ?_)
      obtain ⟨hplaced, hfits⟩ := fits_of_admissible
        (l := ⟨leaseId, generation, ownerId, idempotencyKey, canonical⟩) hs hunique hall
      have hplaced' : ResourceLease.Placed ((s.refreshed canonical).counted generation n)
          ⟨leaseId, generation, ownerId, idempotencyKey, canonical⟩ :=
        ⟨hplaced.unique, (placed_refreshed hplaced).known⟩
      have hvalues : (canonical.map fun x => (x.domainId, s.allocatedIn x.domainId + x.bytes)) =
          ((s.refreshed canonical).counted generation n).allocations (· + ·)
            ⟨leaseId, generation, ownerId, idempotencyKey, canonical⟩ :=
        List.map_congr_left fun x _ => by
          have hbytes := (@allocatedIn_refreshed _ hs canonical) x.domainId
          rw [← hbytes]
          rfl
      rw [hvalues]
      refine Proc.ends_bind_ok (exec_opened hcounted hplaced' hfits.refreshed) ⟨?_, fun f h => by cases h⟩
      exact hcounted.opened hplaced' hfits.refreshed hr
  · obtain ⟨seen, x, rest, -, -, -, rfl⟩ := herror e he
    exact hs.refreshed

end Admission

/-! ## Reads -/

/-- A recomputation of a known domain. -/
theorem exec_recompute_known (hs : s.Coherent) {domainId : String}
    (h : domainId ∈ s.domains.map DomainRecord.id) :
    ∃ d t, Proc.exec (recompute domainId) s = (.ok d, t) ∧ t.Coherent ∧
      t.domains.map DomainRecord.id = s.domains.map DomainRecord.id := by
  obtain ⟨d, hmem, rfl⟩ := List.mem_map.mp h
  exact ⟨_, _, exec_recompute_within hs.ids hmem (hs.within d hmem),
    hs.writeDomain (fun _ => DomainRecord.recompute_domain)
      fun _ => DomainRecord.recompute_allocatedBytes, ids_writeDomain fun _ => DomainRecord.recompute_id⟩

theorem whole_domainSnapshot (hs : s.Coherent) (domainId : Arg) :
    Proc.Ends (domainSnapshot domainId) s (Whole s) := by
  unfold domainSnapshot
  refine Proc.ends_bind_lift (fun e _ => whole_refused hs) fun name _ => Proc.ends_bind_get ?_
  refine Proc.ends_bind_gives (gives_found plain_invalid) (fun e _ => whole_refused hs) fun d hd => ?_
  obtain ⟨hmem, rfl⟩ := domain?_eq_some hd
  obtain ⟨e, t, hexec, ht, -⟩ := exec_recompute_known hs (List.mem_map_of_mem hmem)
  exact Proc.ends_bind_ok hexec (whole_ok ht)

theorem whole_snapshots (hs : s.Coherent) : Proc.Ends snapshots s (Whole s) := by
  unfold snapshots
  refine Proc.ends_bind_get ((Proc.ends_mapM_raising (J := fun _ => False) (Q := fun _ _ => True)
    (I := fun t rest => t.Coherent ∧ ∀ id ∈ rest, id ∈ t.domains.map DomainRecord.id)
    (fun t id rest ht => ?_) ⟨hs, fun id hid => (List.mem_insertionSort _).mp hid⟩).mono ?_)
  · obtain ⟨d, u, hexec, hu, hnames⟩ := exec_recompute_known ht.1 (ht.2 id List.mem_cons_self)
    have hrest : ∀ id ∈ rest, id ∈ u.domains.map DomainRecord.id := fun id hid => by
      rw [hnames]
      exact ht.2 id (List.mem_cons_of_mem _ hid)
    exact Proc.ends_bind_ok hexec ⟨fun b _ => ⟨trivial, hu, hrest⟩, fun e h => by cases h⟩
  · rintro (e | bs) t ⟨hok, herror⟩
    · exact (herror e rfl).elim
    · exact whole_ok (hok bs rfl).2.1

/-! ## All calls -/

/-- What a call leaves, and when it leaves what was there if it raises. -/
def Fails (s : Ledger) (op : Op) {α : Type} (r : Except Fault α) (t : Ledger) : Prop :=
  t.Coherent ∧ ∀ f, r = .error f → (Kept s t ↔ ¬Spoiled s op)

theorem Whole.fails {op : Op} {α : Type} {r : Except Fault α} (h : Whole s r t)
    (hop : ¬Spoiled s op) : Fails s op r t := by
  refine ⟨h.1, fun f hf => ?_⟩
  rw [h.2 f hf]
  exact ⟨fun _ => hop, fun _ => Kept.refl s⟩

/-- Only an admission and a sample can leave something behind. -/
theorem not_spoiled {op : Op} (hadmits : ∀ o r k, op ≠ .admitLease o r k)
    (hsample : ∀ x, op ≠ .updateTelemetry x) : ¬Spoiled s op := by
  intro h
  cases h with
  | recomputed canonical x admits | numbered canonical admits =>
    obtain ⟨_, _, _, _, _, hop, -⟩ := admits
    exact hadmits _ _ _ hop
  | sampled exhausted =>
    obtain ⟨_, _, hop, -⟩ := exhausted
    exact hsample _ hop

theorem spoiled_updateTelemetry_iff {sample : Option TelemetrySample} :
    Spoiled s (.updateTelemetry sample) ↔ Exhausted s (.updateTelemetry sample) := by
  constructor
  · intro h
    cases h with
    | recomputed canonical x admits | numbered canonical admits =>
      obtain ⟨_, _, _, _, _, hop, -⟩ := admits
      cases hop
    | sampled exhausted => exact exhausted
  · exact .sampled

section Admission

variable {ownerId key : Arg} {reservations : Reservations} {canonical : List MemoryReservation}

theorem admits_iff : Admits s (.admitLease ownerId reservations key) canonical ↔
    ∃ owner name, identifier "owner_id" ownerId = .ok owner ∧
      identifier "idempotency_key" key = .ok name ∧
      canonicalReservations reservations = .ok canonical ∧ s.replay? (owner, name) = none := by
  constructor
  · rintro ⟨_, _, _, owner, name, hop, h⟩
    cases hop
    exact ⟨owner, name, h⟩
  · rintro ⟨owner, name, h⟩
    exact ⟨_, _, _, owner, name, rfl, h⟩

theorem spoiled_admitLease_iff : Spoiled s (.admitLease ownerId reservations key) ↔
    ∃ canonical, Admits s (.admitLease ownerId reservations key) canonical ∧ s.Broken canonical := by
  constructor
  · intro h
    cases h with
    | recomputed c x admits examines moves => exact ⟨c, admits, .inl ⟨x, examines, moves⟩⟩
    | numbered c admits admissible left => exact ⟨c, admits, .inr ⟨admissible, left⟩⟩
    | sampled exhausted =>
      obtain ⟨_, _, hop, -⟩ := exhausted
      cases hop
  · rintro ⟨c, admits, ⟨x, examines, moves⟩ | ⟨admissible, left⟩⟩
    · exact .recomputed c x admits examines moves
    · exact .numbered c admits admissible left

theorem fails_admitLease (hs : s.Coherent) (ownerId : Arg) (reservations : Reservations) (key : Arg) :
    Proc.Ends (admitLease ownerId reservations key) s
      (Fails s (.admitLease ownerId reservations key)) := by
  -- a call that is no admission under a new key writes nothing
  have hplain : ∀ {r : Except Fault ResourceLease},
      (∀ canonical, ¬Admits s (.admitLease ownerId reservations key) canonical) →
        Fails s (.admitLease ownerId reservations key) r s :=
    fun h => Whole.fails ⟨hs, fun _ _ => rfl⟩ fun hspoiled => by
      obtain ⟨c, admits, -⟩ := spoiled_admitLease_iff.mp hspoiled
      exact h c admits
  unfold admitLease
  refine Proc.ends_bind_lift (fun e he => hplain fun c h => ?_) fun owner howner => ?_
  · obtain ⟨_, _, hok, -⟩ := admits_iff.mp h
    rw [he] at hok
    cases hok
  refine Proc.ends_bind_lift (fun e he => hplain fun c h => ?_) fun name hname => ?_
  · obtain ⟨_, _, -, hok, -⟩ := admits_iff.mp h
    rw [he] at hok
    cases hok
  refine Proc.ends_bind_lift (fun e he => hplain fun c h => ?_) fun canonical hcanonical => ?_
  · obtain ⟨_, _, -, -, hok, -⟩ := admits_iff.mp h
    rw [he] at hok
    cases hok
  refine Proc.ends_bind_get ?_
  cases hreplay : s.replay? (owner, name) with
  | some entry =>
    have hknown : ∀ c, ¬Admits s (.admitLease ownerId reservations key) c := fun c h => by
      obtain ⟨owner', name', hown, hnam, -, hnone⟩ := admits_iff.mp h
      rw [howner] at hown
      rw [hname] at hnam
      cases hown
      cases hnam
      rw [hreplay] at hnone
      cases hnone
    dsimp only
    unfold admitReplay
    refine Proc.ends_bind_raiseIf (fun _ => hplain hknown) fun _ => Proc.ends_bind_get ?_
    exact Proc.ends_bind_lift (fun _ _ => hplain hknown) fun _ _ => hplain hknown
  | none =>
    obtain ⟨-, -, -, hunique⟩ : Gives Plain _ (.ok canonical) :=
      hcanonical ▸ (@gives_canonicalReservations reservations)
    refine (ends_admitNew_coherent hs hunique).mono ?_
    rintro r t ⟨ht, hkept⟩
    refine ⟨ht, fun f hf => (hkept f hf).trans (not_congr ?_)⟩
    rw [spoiled_admitLease_iff]
    constructor
    · exact fun h => ⟨canonical, admits_iff.mpr ⟨owner, name, howner, hname, hcanonical, hreplay⟩, h⟩
    · rintro ⟨c, admits, h⟩
      obtain ⟨_, _, -, -, hok, -⟩ := admits_iff.mp admits
      rw [hcanonical] at hok
      cases hok
      exact h

end Admission

theorem Fails.map {op : Op} {α β : Type} {g : α → β} {r : Except Fault α} (h : Fails s op r t) :
    Fails s op (r.map g) t := by
  refine ⟨h.1, fun f hf => h.2 f ?_⟩
  cases r with
  | ok a => cases hf
  | error e => exact congrArg _ (Except.error.inj hf)

/-- **What every call leaves.** -/
theorem fails_call (hs : s.Coherent) (op : Op) : Fails s op (step s op).1 (step s op).2 := by
  have hends : Proc.Ends (call op) s (Fails s op) := by
    cases op with
    | admitLease o r k =>
      exact Proc.ends_map ((fails_admitLease hs o r k).mono fun _ _ h => h.map)
    | release l g o =>
      exact Proc.ends_map ((whole_release hs l g o).mono fun _ _ h =>
        (h.fails (not_spoiled (by simp) (by simp))).map)
    | quarantine i r =>
      exact Proc.ends_map ((whole_quarantine hs i r).mono fun _ _ h =>
        (h.fails (not_spoiled (by simp) (by simp))).map)
    | clearQuarantine i e =>
      exact Proc.ends_map ((whole_clearQuarantine hs i e).mono fun _ _ h =>
        (h.fails (not_spoiled (by simp) (by simp))).map)
    | updateTelemetry x =>
      refine Proc.ends_map ((ends_updateTelemetry_coherent hs x).mono ?_)
      rintro r t ⟨ht, herror⟩
      refine Fails.map ⟨ht, fun f hf => ?_⟩
      rw [spoiled_updateTelemetry_iff]
      rcases herror f hf with ⟨rfl, hlive⟩ | ⟨hkept, hexhausted⟩
      · exact ⟨fun _ => hlive, fun _ => Kept.refl t⟩
      · exact ⟨fun h => absurd h hkept, fun h => absurd hexhausted h⟩
    | domainSnapshot i =>
      exact Proc.ends_map ((whole_domainSnapshot hs i).mono fun _ _ h =>
        (h.fails (not_spoiled (by simp) (by simp))).map)
    | snapshots =>
      exact Proc.ends_map ((whole_snapshots hs).mono fun _ _ h =>
        (h.fails (not_spoiled (by simp) (by simp))).map)
  exact hends

/-! ## Reachable ledgers -/

section Reachable

variable {domains : List MemoryDomain} {idFactory : Nat → Option Arg} {initialGeneration : Arg}

theorem coherent_init (h : init domains idFactory initialGeneration = .ok s) : s.Coherent := by
  obtain ⟨g, -, rfl, hids⟩ := init_eq_ok h
  exact ⟨hids, List.forall_mem_map.mpr fun d _ => Nat.zero_le _, List.forall_mem_map.mpr fun d _ => rfl,
    List.nodup_nil, fun l hl => absurd hl List.not_mem_nil⟩

theorem coherent_of_reached (hs : s.Coherent) (ops : List Op) : ∀ t ∈ reached s ops, t.Coherent := by
  refine states_when (D := fun _ => True) (fun e _ he his => ?_) (fun _ _ => trivial) hs
  have hafter : (step e.before e.op).2 = e.after := congrArg Prod.snd his
  rw [← hafter]
  exact (fails_call he e.op).1

/-- **A call that raises leaves the records as they were, unless it is one of the named cases.** -/
theorem kept_iff (hinit : init domains idFactory initialGeneration = .ok s) (ops : List Op)
    (ht : t ∈ reached s ops) (op : Op) {f : Fault} (hraised : (step t op).1 = .error f) :
    Kept t (step t op).2 ↔ ¬Spoiled t op :=
  (fails_call (coherent_of_reached (coherent_init hinit) ops t ht) op).2 f hraised

end Reachable

/-! ## A generation that is lost -/

/-- A ledger of one domain whose ID factory raises. -/
def silent : Ledger :=
  { domains := [fresh hystereticDomain], nextGeneration := some 1, idFactory := fun _ => none }

theorem init_silent : init [hystereticDomain] (fun _ => none) (.int 1) = .ok silent := rfl

theorem gpu_named : isIdentifier "gpu" = true := by decide

theorem ten_bounded : 10 ≤ maxU64 := by decide

theorem ten_positive : 10 ≠ 0 := by decide

/-- A request for a tenth of the domain. -/
def askTenth : Op :=
  .admitLease (.text "owner") (.items [some ⟨"gpu", 10, gpu_named, ten_bounded, ten_positive⟩])
    (.text "key")

theorem raised_askTenth : (step silent askTenth).1 = .error (fault .foreign "id_factory") := by
  decide +kernel

theorem next_askTenth : (step silent askTenth).2.nextGeneration = some 2 := by
  decide +kernel

theorem kept_iff_askTenth : Kept silent (step silent askTenth).2 ↔ ¬Spoiled silent askTenth :=
  kept_iff init_silent [] List.mem_cons_self askTenth raised_askTenth

/-- The ID factory raises, and the generation that was taken is gone. -/
theorem generation_lost : ¬ ∀ (domains : List MemoryDomain) (idFactory : Nat → Option Arg)
    (initialGeneration : Arg) (s : Ledger), init domains idFactory initialGeneration = .ok s →
      ∀ ops, ∀ t ∈ reached s ops, ∀ op f, (step t op).1 = .error f → Kept t (step t op).2 := by
  intro h
  have hkept := h _ _ _ silent init_silent [] silent List.mem_cons_self askTenth _ raised_askTenth
  have hsame := hkept.nextGeneration
  rw [next_askTenth] at hsame
  cases hsame

end LumaOS.Memory.Ledger
