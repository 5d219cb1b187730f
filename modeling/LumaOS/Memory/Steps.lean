import LumaOS.Memory.Accounting

/-!
# What one call does

`Sound` is the invariant: balanced, and no active lease touches a quarantined domain. `Good` says
what a call does to a sound state: the state stays sound, no lease is lost and none that ended
changes, a domain leaves its quarantine through `clear_quarantine` only, a denied admission changes
nothing, and an admission is remembered under its key. `good_call` proves it for every call but one
(`Exhausted`): a sample that asks for a quarantine when the domain's quarantine epochs are used up is
stored before the error, and the domain's state is not judged again.
-/

namespace LumaOS.Memory

open LumaOS.Base

/-! ## Exceptions of the checks -/

/-- Neither an underflow nor a denial. -/
structure Plain (f : Fault) : Prop where
  underflow : f ≠ underflow
  denied : f.kind ≠ .admissionDenied

theorem plain_invalid {message : String} : Plain (invalid message) :=
  ⟨fun h => absurd (congrArg Fault.kind h) (by simp [invalid, fault, Memory.underflow]),
    by simp [invalid, fault]⟩

theorem plain_fault {kind : FaultKind} {message : String} (harith : kind ≠ .byteArithmetic)
    (hdenied : kind ≠ .admissionDenied) : Plain (fault kind message) :=
  ⟨fun h => harith (congrArg Fault.kind h), hdenied⟩

theorem plain_arithmetic {message : String}
    (h : message ≠ "unsigned 64-bit byte subtraction underflow") :
    Plain (fault .byteArithmetic message) :=
  ⟨fun he => h (congrArg Fault.message he), by simp [fault]⟩

section Checks

variable {field : String} {a : Arg}

theorem gives_checkedU64 :
    Gives Plain (fun n => n ≤ maxU64 ∧ a = .int n) (checkedU64 field a) := by
  cases h : checkedU64 field a with
  | ok n =>
    refine ⟨checkedU64_le h, ?_⟩
    cases a <;> simp only [checkedU64] at h
    all_goals first
      | cases h
      | (split at h
         · cases h
         · injection h with h
           congr 1
           omega)
  | error e =>
    have he : ∃ message, e = invalid message := by
      cases a <;> simp only [checkedU64] at h
      all_goals first
        | exact ⟨_, (Except.error.inj h).symm⟩
        | (split at h
           · exact ⟨_, (Except.error.inj h).symm⟩
           · cases h)
    obtain ⟨message, rfl⟩ := he
    exact plain_invalid

theorem gives_identifier :
    Gives Plain (fun value => a = .text value ∧ isIdentifier value = true) (identifier field a) := by
  cases a with
  | text value =>
    refine gives_bind_raiseIf (fun _ => plain_invalid) fun htrimmed => ?_
    refine gives_bind_raiseIf (fun _ => plain_invalid) fun hlength => ⟨rfl, ?_⟩
    simp only [Bool.not_eq_false', decide_eq_false_iff_not, not_lt] at htrimmed hlength
    simp [isIdentifier, htrimmed, hlength]
  | int | bool | missing | other => exact plain_invalid

theorem gives_checkedAddBytes {n m : Nat} :
    Gives Plain (fun k => k = n + m) (checkedAddBytes n m) := by
  cases h : checkedAddBytes n m with
  | ok k => exact checkedAddBytes_eq_ok h
  | error e =>
    have : Gives Plain (fun _ : Nat => True) (checkedAddBytes n m) := by
      refine gives_bind gives_checkedU64 fun _ _ => gives_bind gives_checkedU64 fun _ _ => ?_
      exact gives_bind_raiseIf (fun _ => plain_arithmetic (by decide)) fun _ => trivial
    rwa [h] at this

theorem gives_checkedSumBytes {values : List Nat} {total : Nat} :
    Gives Plain (fun _ => True) (values.foldlM checkedAddBytes total) := by
  induction values generalizing total with
  | nil => exact trivial
  | cons n values ih =>
    rw [List.foldlM_cons]
    exact gives_bind gives_checkedAddBytes fun _ _ => ih

theorem gives_mapM {α β : Type} {f : α → Except Fault β} (h : ∀ x, Gives Plain (fun _ => True) (f x)) :
    ∀ {xs : List α}, Gives Plain (fun _ => True) (xs.mapM f)
  | [] => trivial
  | x :: xs => by
    rw [List.mapM_cons]
    exact gives_bind (h x) fun _ _ => gives_bind (gives_mapM h) fun _ _ => trivial

theorem gives_listed {reservations : Ledger.Reservations} :
    Gives Plain (fun items => reservations.listed = .ok items) reservations.listed := by
  cases h : reservations.listed with
  | ok items => exact rfl
  | error e =>
    have : Gives Plain (fun _ : List MemoryReservation => True) reservations.listed := by
      cases reservations with
      | mapping entries =>
        refine gives_mapM fun entry => ?_
        refine gives_bind gives_identifier fun _ _ => gives_bind gives_checkedU64 fun _ _ => ?_
        split
        · exact trivial
        · exact plain_invalid
      | items listing =>
        simp only [Ledger.Reservations.listed]
        split
        · exact trivial
        · exact plain_invalid
      | other => exact plain_invalid
    rwa [h] at this

theorem gives_canonicalReservations {reservations : Ledger.Reservations} :
    Gives Plain (fun canonical => ∃ items, reservations.listed = .ok items ∧
      canonical = items.insertionSort MemoryReservation.le ∧
      (canonical.map (·.domainId)).Nodup) (Ledger.canonicalReservations reservations) := by
  refine gives_bind gives_listed fun items hitems => ?_
  refine gives_bind_raiseIf (fun _ => plain_invalid) fun _ => ?_
  refine gives_bind_raiseIf (fun _ => plain_invalid) fun hnodup => ?_
  refine gives_bind gives_checkedSumBytes fun _ _ => ⟨items, hitems, rfl, ?_⟩
  simpa using hnodup

/-- The listing order does not matter. -/
theorem canonicalReservations_perm {reservations reservations' : Ledger.Reservations}
    {items items' : List MemoryReservation} (h : reservations.listed = .ok items)
    (h' : reservations'.listed = .ok items') (hperm : items.Perm items') :
    Ledger.canonicalReservations reservations' = Ledger.canonicalReservations reservations := by
  have hsort : items'.insertionSort MemoryReservation.le =
      items.insertionSort MemoryReservation.le :=
    ((List.perm_insertionSort _ items').trans (hperm.symm.trans
      (List.perm_insertionSort _ items).symm)).eq_of_pairwise'
      (List.pairwise_insertionSort _ items') (List.pairwise_insertionSort _ items)
  have hempty : items'.isEmpty = items.isEmpty := by
    rw [Bool.eq_iff_iff, List.isEmpty_iff, List.isEmpty_iff]
    exact ⟨fun hn => (hn ▸ hperm).eq_nil, fun hn => (hn ▸ hperm).nil_eq.symm⟩
  unfold Ledger.canonicalReservations
  rw [h, h']
  simp only [bind, Except.bind]
  rw [hempty, hsort]

theorem gives_postInit {l : ResourceLease} : Gives Plain (fun _ => True) l.postInit := by
  refine gives_bind gives_identifier fun _ _ => gives_bind gives_checkedU64 fun _ _ => ?_
  refine gives_bind_raiseIf (fun _ => plain_invalid) fun _ => ?_
  refine gives_bind gives_identifier fun _ _ => gives_bind gives_identifier fun _ _ => ?_
  refine gives_bind_raiseIf (fun _ => plain_invalid) fun _ => ?_
  refine gives_bind_raiseIf (fun _ => plain_invalid) fun _ => ?_
  refine gives_bind_raiseIf (fun _ => plain_invalid) fun _ => ?_
  exact gives_bind gives_checkedSumBytes fun _ _ => trivial

end Checks

namespace Ledger

/-! ## What a call keeps -/

/-- Balanced, and no active lease touches a quarantined domain. -/
structure Sound (s : Ledger) : Prop extends s.Balanced where
  clear : ∀ r ∈ s.leases, r.status = .active → ∀ d ∈ s.domains, r.lease.touches d.id = true →
    d.state ≠ .quarantined

/-- Leases are kept, and one that ended keeps its record; keys are kept. -/
structure Follows (s t : Ledger) : Prop where
  leases : ∀ (i : Nat) (r : LeaseRecord), s.leases[i]? = some r →
    ∃ r' : LeaseRecord, t.leases[i]? = some r' ∧ r'.lease = r.lease ∧ (r.status ≠ .active → r' = r)
  replays : ∀ key entry, s.replay? key = some entry → t.replay? key = some entry

/-- The same domains, in the same order, and the same of them quarantined. -/
def Shifts (s t : Ledger) : Prop :=
  ∃ F : DomainRecord → DomainRecord, t.domains = s.domains.map F ∧
    ∀ d, (F d).id = d.id ∧ ((F d).state = .quarantined ↔ d.state = .quarantined)

variable {s t u : Ledger} {d : DomainRecord}

theorem Follows.refl (s : Ledger) : Follows s s :=
  ⟨fun _ r hr => ⟨r, hr, rfl, fun _ => rfl⟩, fun _ _ h => h⟩

theorem Follows.trans (h : Follows s t) (h' : Follows t u) : Follows s u := by
  refine ⟨fun i r hr => ?_, fun key entry he => h'.replays key entry (h.replays key entry he)⟩
  obtain ⟨r₁, hr₁, hlease₁, hsame₁⟩ := h.leases i r hr
  obtain ⟨r₂, hr₂, hlease₂, hsame₂⟩ := h'.leases i r₁ hr₁
  refine ⟨r₂, hr₂, hlease₂.trans hlease₁, fun hended => ?_⟩
  obtain rfl := hsame₁ hended
  exact hsame₂ hended

/-- The records of the leases are as they were. -/
theorem Follows.of_eq (hleases : t.leases = s.leases) (hreplays : t.idempotency = s.idempotency) :
    Follows s t := by
  refine ⟨fun i r hr => ⟨r, hleases ▸ hr, rfl, fun _ => rfl⟩, fun key entry he => ?_⟩
  unfold replay? at *
  rwa [hreplays]

theorem Shifts.refl (s : Ledger) : Shifts s s :=
  ⟨fun d => d, (List.map_id s.domains).symm, fun _ => ⟨rfl, Iff.rfl⟩⟩

theorem Shifts.trans (h : Shifts s t) (h' : Shifts t u) : Shifts s u := by
  obtain ⟨F, hF, hkeep⟩ := h
  obtain ⟨G, hG, hkeep'⟩ := h'
  refine ⟨G ∘ F, by rw [hG, hF, List.map_map], fun d => ?_⟩
  exact ⟨(hkeep' (F d)).1.trans (hkeep d).1, (hkeep' (F d)).2.trans (hkeep d).2⟩

theorem shifts_adjusted {new : Nat → Nat → Nat} {l : ResourceLease}
    (h : t.domains = s.domains.map (adjusted new l)) : Shifts s t :=
  ⟨adjusted new l, h, fun _ => ⟨DomainRecord.reallocated_id, DomainRecord.reallocated_quarantined⟩⟩

/-- A domain of the later state with what it was before. -/
theorem Shifts.before (h : Shifts s t) (hd : d ∈ t.domains) :
    ∃ d₀ ∈ s.domains, d.id = d₀.id ∧ (d.state = .quarantined ↔ d₀.state = .quarantined) := by
  obtain ⟨F, hF, hkeep⟩ := h
  rw [hF] at hd
  obtain ⟨d₀, hd₀, rfl⟩ := List.mem_map.mp hd
  exact ⟨d₀, hd₀, (hkeep d₀).1, (hkeep d₀).2⟩

/-- A quarantined domain stays quarantined. -/
theorem Shifts.after (h : Shifts s t) (hd : d ∈ s.domains) (hq : d.state = .quarantined) :
    ∃ d' ∈ t.domains, d'.id = d.id ∧ d'.state = .quarantined := by
  obtain ⟨F, hF, hkeep⟩ := h
  refine ⟨F d, ?_, (hkeep d).1, (hkeep d).2.mpr hq⟩
  rw [hF]
  exact List.mem_map_of_mem hd

/-- The admission is known under its key. -/
def Remembers (t : Ledger) (ownerId : Arg) (reservations : Reservations) (idempotencyKey : Arg)
    (l : ResourceLease) : Prop :=
  ∃ owner key canonical, identifier "owner_id" ownerId = .ok owner ∧
    identifier "idempotency_key" idempotencyKey = .ok key ∧
    canonicalReservations reservations = .ok canonical ∧
    t.replay? (owner, key) = some (canonical, l.leaseId) ∧ l ∈ t.tokens

/-- What a call does to a sound ledger. -/
structure Good (s : Ledger) (op : Op) (r : Except Fault Reply) (t : Ledger) : Prop where
  sound : t.Sound
  follows : Follows s t
  underflow : r ≠ .error Memory.underflow
  denied : ∀ f, r = .error f → f.kind = .admissionDenied → t = s
  stays : ∀ d ∈ s.domains, d.state = .quarantined →
    (∃ d' ∈ t.domains, d'.id = d.id ∧ d'.state = .quarantined) ∨
    op = .clearQuarantine (.text d.id) (.int d.quarantineEpoch)
  remembers : ∀ ownerId reservations key l, op = .admitLease ownerId reservations key →
    r = .ok (.lease l) → Remembers t ownerId reservations key l

variable {op : Op}

theorem good_refused (hs : s.Sound) {f : Fault} (hf : f ≠ underflow) : Good s op (.error f) s where
  sound := hs
  follows := .refl s
  underflow h := hf (Except.error.inj h)
  denied _ _ _ := rfl
  stays d hd hq := .inl ⟨d, hd, rfl, hq⟩
  remembers _ _ _ _ _ h := by cases h

/-- A call that is no admission and keeps what is quarantined. -/
theorem good_shift (ht : t.Sound) (hfollows : Follows s t) (hshifts : Shifts s t) {r : Except Fault Reply}
    (hplain : ∀ f, r = .error f → Plain f)
    (hop : ∀ ownerId reservations key, op ≠ .admitLease ownerId reservations key) : Good s op r t where
  sound := ht
  follows := hfollows
  underflow h := (hplain _ h).underflow rfl
  denied f h hkind := absurd hkind (hplain f h).denied
  stays _ hd hq := .inl (hshifts.after hd hq)
  remembers _ _ _ _ h := absurd h (hop _ _ _)

/-! ## Writes to one domain -/

section Write

variable {domainId : String} {f g : DomainRecord → DomainRecord}

/-- The attributes that the accounting reads are kept, and the state is settled. -/
structure Keeps (d d' : DomainRecord) : Prop where
  domain : d'.domain = d.domain
  allocatedBytes : d'.allocatedBytes = d.allocatedBytes
  settled : d'.recompute = d'

theorem Balanced.writeDomain (h : s.Balanced)
    (hkeep : ∀ d ∈ s.domains, d.id = domainId → Keeps d (f d)) :
    (s.writeDomain domainId f).Balanced := by
  have hall : ∀ d ∈ s.domains, Keeps d (if d.id = domainId then f d else d) := fun d hd => by
    by_cases hid : d.id = domainId
    · rw [if_pos hid]
      exact hkeep d hd hid
    · rw [if_neg hid]
      exact ⟨rfl, rfl, h.settled d hd⟩
  have hids : (s.writeDomain domainId f).domains.map DomainRecord.id =
      s.domains.map DomainRecord.id := by
    unfold Ledger.writeDomain
    rw [List.map_map]
    exact List.map_congr_left fun d hd => congrArg MemoryDomain.domainId (hall d hd).domain
  have hdomains : ∀ {P : DomainRecord → Prop},
      (∀ d ∈ s.domains, P (if d.id = domainId then f d else d)) →
      ∀ d ∈ (s.writeDomain domainId f).domains, P d := fun hP => List.forall_mem_map.mpr hP
  exact
    { ids := hids ▸ h.ids
      watermarks := hdomains fun d hd => (hall d hd).domain ▸ h.watermarks d hd
      settled := hdomains fun d hd => (hall d hd).settled
      within := hdomains fun d hd => by
        have := h.within d hd
        unfold DomainRecord.Within at *
        rwa [(hall d hd).domain, (hall d hd).allocatedBytes]
      accounted := hdomains fun d hd => by
        have hid : DomainRecord.id (if d.id = domainId then f d else d) = d.id :=
          congrArg MemoryDomain.domainId (hall d hd).domain
        rw [(hall d hd).allocatedBytes, hid]
        exact h.accounted d hd
      leaseIds := h.leaseIds
      placed := fun l hl => ⟨(h.placed l hl).unique, fun x hx => by
        rw [hids]
        exact (h.placed l hl).known x hx⟩
      increasing := h.increasing
      next := h.next
      replays := h.replays }

theorem writeDomain_writeDomain (hf : ∀ d, (f d).id = d.id) :
    (s.writeDomain domainId f).writeDomain domainId g = s.writeDomain domainId (g ∘ f) := by
  unfold Ledger.writeDomain
  simp only [List.map_map]
  have hmap : (s.domains.map ((fun d => if d.id = domainId then g d else d) ∘
      fun d => if d.id = domainId then f d else d)) =
      s.domains.map fun d => if d.id = domainId then (g ∘ f) d else d := by
    refine List.map_congr_left fun d _ => ?_
    rw [Function.comp_apply]
    by_cases hid : d.id = domainId
    · rw [if_pos hid, if_pos ((hf d).trans hid), if_pos hid]
      rfl
    · rw [if_neg hid, if_neg hid, if_neg hid]
  rw [hmap]

theorem writeDomain_id : s.writeDomain domainId (fun d => d) = s := by
  unfold Ledger.writeDomain
  simp

theorem ids_writeDomain (hf : ∀ d, (f d).id = d.id) :
    (s.writeDomain domainId f).domains.map DomainRecord.id = s.domains.map DomainRecord.id := by
  unfold Ledger.writeDomain
  rw [List.map_map]
  refine List.map_congr_left fun d _ => ?_
  rw [Function.comp_apply]
  split
  · exact hf d
  · rfl

/-- The record that was written. -/
theorem domain?_writeDomain (hids : (s.domains.map DomainRecord.id).Nodup)
    (hf : ∀ d, (f d).id = d.id) (hd : s.domain? domainId = some d) :
    (s.writeDomain domainId f).domain? domainId = some (f d) := by
  obtain ⟨hmem, rfl⟩ := domain?_eq_some hd
  have hids' : ((s.writeDomain d.id f).domains.map DomainRecord.id).Nodup := by
    rwa [ids_writeDomain hf]
  have hin : f d ∈ (s.writeDomain d.id f).domains :=
    List.mem_map.mpr ⟨d, hmem, if_pos rfl⟩
  have hfound := domain?_of_mem hids' hin
  rwa [hf] at hfound

theorem follows_writeDomain : Follows s (s.writeDomain domainId f) := Follows.of_eq rfl rfl

theorem shifts_writeDomain (hf : ∀ d, (f d).id = d.id)
    (hstate : ∀ d, (f d).state = .quarantined ↔ d.state = .quarantined) :
    Shifts s (s.writeDomain domainId f) := by
  refine ⟨_, rfl, fun d => ?_⟩
  by_cases hid : d.id = domainId
  · rw [if_pos hid]
    exact ⟨hf d, hstate d⟩
  · rw [if_neg hid]
    exact ⟨rfl, Iff.rfl⟩

end Write

/-! ## Snapshots -/

theorem gives_found {α : Type} {f : Fault} {o : Option α} (hf : Plain f) :
    Gives Plain (fun a => o = some a) (found f o) := by
  cases o with
  | none => exact hf
  | some a => exact rfl

/-- A recomputation of a known domain reads. -/
theorem reads_recompute (hs : s.Balanced) {domainId : String}
    (hknown : domainId ∈ s.domains.map DomainRecord.id) :
    Proc.Reads Plain (fun d => d ∈ s.domains ∧ d.id = domainId) (recompute domainId) s := by
  obtain ⟨d, hd⟩ := exists_domain? hknown
  exact Proc.ends_of_exec (exec_recompute hs hd) ⟨rfl, domain?_eq_some hd⟩

theorem reads_domainSnapshot (hs : s.Balanced) (domainId : Arg) :
    Proc.Reads Plain (fun _ => True) (domainSnapshot domainId) s := by
  refine Proc.reads_bind (Proc.reads_lift gives_identifier) fun domainId _ => ?_
  refine Proc.reads_bind (Q := fun t => t = s) ⟨rfl, rfl⟩ ?_
  rintro t rfl
  refine Proc.reads_bind (Proc.reads_lift (gives_found plain_invalid)) fun d hd => ?_
  obtain ⟨hmem, rfl⟩ := domain?_eq_some hd
  exact Proc.reads_bind (reads_recompute hs (List.mem_map_of_mem hmem)) fun _ _ => ⟨rfl, trivial⟩

theorem reads_snapshots (hs : s.Balanced) : Proc.Reads Plain (fun _ => True) snapshots s := by
  refine Proc.reads_bind (Q := fun t => t = s) ⟨rfl, rfl⟩ ?_
  rintro t rfl
  refine (Proc.reads_mapM (P := Plain) (Q := fun _ _ => True) fun domainId hin => ?_).mono
    fun r u h => ⟨h.1, h.2.mono fun _ _ => trivial⟩
  rw [List.mem_insertionSort] at hin
  exact Proc.reads_bind (reads_recompute hs hin) fun _ _ => ⟨rfl, trivial⟩

/-- What `Good` asks of a method that is no admission. -/
def Served (s : Ledger) (op : Op) {α : Type} (g : α → Reply) (r : Except Fault α) (t : Ledger) :
    Prop := Good s op (r.map g) t

/-- A call that only reads. -/
theorem served_reads (hs : s.Sound) {α : Type} {m : Proc Fault Ledger α} {g : α → Reply}
    (hm : Proc.Reads Plain (fun _ => True) m s)
    (hop : ∀ ownerId reservations key, op ≠ .admitLease ownerId reservations key) :
    Proc.Ends m s (Served s op g) := by
  refine hm.mono ?_
  rintro r t ⟨rfl, hr⟩
  cases r with
  | ok a => exact good_shift hs (.refl t) (.refl t) (fun f h => by cases h) hop
  | error e => exact good_refused hs hr.underflow

/-! ## Release -/

section Terminated

variable {r r' : LeaseRecord} {l : ResourceLease} {status : LeaseStatus} {reason : String}

theorem shifts_terminated : Shifts s (s.terminated l status reason) := shifts_adjusted rfl

/-- A lease that is active afterwards is another one, as it was. -/
theorem active_terminated (hstatus : status ≠ .active)
    (hr' : r' ∈ (s.terminated l status reason).leases) (hactive : r'.status = .active) :
    r' ∈ s.leases ∧ r'.lease.leaseId ≠ l.leaseId := by
  obtain ⟨r, hr, rfl⟩ := List.mem_map.mp hr'
  by_cases hid : r.lease.leaseId = l.leaseId
  · rw [if_pos hid] at hactive
    exact absurd hactive hstatus
  · rw [if_neg hid]
    exact ⟨hr, hid⟩

theorem follows_terminated (hs : s.Balanced) (hr : r ∈ s.leases) (hactive : r.status = .active) :
    Follows s (s.terminated r.lease status reason) := by
  refine ⟨fun i x hx => ?_, fun _ _ he => he⟩
  unfold terminated
  rw [List.getElem?_map, hx]
  refine ⟨_, rfl, ?_, fun hended => ?_⟩
  · dsimp only
    split
    · rfl
    · rfl
  · have hne : x.lease.leaseId ≠ r.lease.leaseId := fun he => hended (by
      have hfound := lease?_of_mem hs.leaseIds (List.mem_of_getElem? hx)
      rw [he, lease?_of_mem hs.leaseIds hr] at hfound
      rw [← Option.some.inj hfound]
      exact hactive)
    exact if_neg hne

theorem Sound.terminated (hs : s.Sound) (hr : r ∈ s.leases) (hactive : r.status = .active)
    (hstatus : status ≠ .active) : (s.terminated r.lease status reason).Sound := by
  refine ⟨hs.toBalanced.terminated hr hactive hstatus, fun r' hr' hactive' d hd htouch => ?_⟩
  obtain ⟨d₀, hd₀, hid, hq⟩ := shifts_terminated.before hd
  rw [ne_eq, hq]
  exact hs.clear r' (active_terminated hstatus hr' hactive').1 hactive' d₀ hd₀ (hid ▸ htouch)

end Terminated

theorem gives_lookup {lease : LeaseArg} {generation ownerId : Arg} :
    Gives Plain (fun r => r ∈ s.leases) (s.lookup lease generation ownerId) := by
  have hstale : ∀ message, Plain (fault .staleLease message) := fun _ =>
    plain_fault (by decide) (by decide)
  have hwanted : Gives Plain (fun _ => True) (wanted lease generation) := by
    cases lease with
    | lease l => exact gives_bind_raiseIf (fun _ => hstale _) fun _ => trivial
    | leaseId leaseId =>
      refine gives_bind gives_identifier fun _ _ => ?_
      refine gives_bind_raiseIf (fun _ => plain_invalid) fun _ => ?_
      exact gives_bind gives_checkedU64 fun _ _ => trivial
    | other => exact plain_invalid
  have howner : ∀ r, Gives Plain (fun _ => True) (checkOwner r ownerId) := by
    intro r
    have hcheck : ∀ a : Arg, Gives Plain (fun _ => True) (do
        let ownerId ← identifier "owner_id" a
        raiseIf (ownerId != r.lease.ownerId)
          (fault .leaseOwnership "lease belongs to another owner")) := fun a =>
      gives_bind gives_identifier fun owner _ =>
        gives_raiseIf (fun _ => plain_fault (by decide) (by decide)) fun _ => trivial
    cases ownerId with
    | missing => exact trivial
    | text value | int value | bool value | other => exact hcheck _
  refine gives_bind hwanted fun key _ => ?_
  refine gives_bind (gives_found (hstale _)) fun r hr => ?_
  refine gives_bind_raiseIf (fun _ => hstale _) fun _ => ?_
  refine gives_bind_raiseIf (fun _ => hstale _) fun _ => ?_
  exact gives_bind (howner r) fun _ _ => (lease?_eq_some hr).1

theorem ends_release (hs : s.Sound) (lease : LeaseArg) (generation ownerId : Arg) :
    Proc.Ends (release lease generation ownerId) s
      (Served s (.release lease generation ownerId) Reply.released) := by
  unfold release
  refine Proc.ends_bind_get (Proc.ends_bind_gives gives_lookup (fun e he => ?_) fun r hr => ?_)
  · exact good_refused hs he.underflow
  · split
    · exact good_shift hs (.refl s) (.refl s) (fun f h => by cases h) fun _ _ _ h => by cases h
    · refine Proc.ends_bind_raiseIf (fun _ => ?_) fun hactive => ?_
      · exact good_refused hs (by decide)
      · have hactive : r.status = .active := by simpa using hactive
        refine Proc.ends_bind_ok (exec_terminalize hs.toBalanced hr hactive) ?_
        exact good_shift (hs.terminated hr hactive (by decide))
          (follows_terminated hs.toBalanced hr hactive) shifts_terminated
          (fun f h => by cases h) fun _ _ _ h => by cases h

/-! ## Quarantine -/

/-- What is quarantined stays so. -/
def Holds (s t : Ledger) : Prop :=
  ∀ d ∈ s.domains, d.state = .quarantined → ∃ d' ∈ t.domains, d'.id = d.id ∧ d'.state = .quarantined

theorem Holds.trans (h : Holds s t) (h' : Holds t u) : Holds s u := by
  intro d hd hq
  obtain ⟨d₁, hd₁, hid₁, hq₁⟩ := h d hd hq
  obtain ⟨d₂, hd₂, hid₂, hq₂⟩ := h' d₁ hd₁ hq₁
  exact ⟨d₂, hd₂, hid₂.trans hid₁, hq₂⟩

theorem Shifts.holds (h : Shifts s t) : Holds s t := fun _ hd hq => h.after hd hq

/-- A write that can only put a domain into quarantine. -/
theorem holds_writeDomain {domainId : String} {f : DomainRecord → DomainRecord}
    (hf : ∀ d, (f d).id = d.id) (hstate : ∀ d, d.state = .quarantined → (f d).state = .quarantined) :
    Holds s (s.writeDomain domainId f) := by
  intro d hd hq
  refine ⟨_, List.mem_map_of_mem hd, ?_⟩
  by_cases hid : d.id = domainId
  · rw [if_pos hid]
    exact ⟨hf d, hstate d hq⟩
  · rw [if_neg hid]
    exact ⟨rfl, hq⟩

section Quarantine

variable {domainId reason : String}

theorem recompute_of_quarantined (h : d.state = .quarantined) : d.recompute = d := if_pos h

/-- While leases are revoked: what is left to revoke are the active leases of the domain. -/
structure Revoking (domainId : String) (m t : Ledger) (rest : List LeaseRecord) : Prop where
  balanced : t.Balanced
  follows : Follows m t
  shifts : Shifts m t
  distinct : (rest.map fun r => r.lease.leaseId).Nodup
  pending : ∀ r ∈ rest, r ∈ t.leases ∧ r.status = .active
  active : ∀ r ∈ t.leases, r.status = .active →
    r ∈ m.leases ∧ (r.lease.touches domainId = true → r ∈ rest)

theorem Revoking.terminated {m : Ledger} {x : LeaseRecord} {xs : List LeaseRecord}
    (h : Revoking domainId m t (x :: xs)) :
    Revoking domainId m (t.terminated x.lease .revoked reason) xs := by
  obtain ⟨hx, hactive⟩ := h.pending x List.mem_cons_self
  obtain ⟨hfresh, hxs⟩ := List.nodup_cons.mp h.distinct
  have hne : ∀ r ∈ xs, r.lease.leaseId ≠ x.lease.leaseId := fun r hr he =>
    hfresh (List.mem_map.mpr ⟨r, hr, he⟩)
  refine
    { balanced := h.balanced.terminated hx hactive (by decide)
      follows := h.follows.trans (follows_terminated h.balanced hx hactive)
      shifts := h.shifts.trans shifts_terminated
      distinct := hxs
      pending := fun r hr => ?_
      active := fun r hr hr' => ?_ }
  · obtain ⟨hin, hr'⟩ := h.pending r (List.mem_cons_of_mem x hr)
    exact ⟨List.mem_map.mpr ⟨r, hin, if_neg (hne r hr)⟩, hr'⟩
  · obtain ⟨hin, hid⟩ := active_terminated (by decide) hr hr'
    obtain ⟨hm, htouch⟩ := h.active r hin hr'
    refine ⟨hm, fun ht => ?_⟩
    rcases List.mem_cons.mp (htouch ht) with rfl | hrest
    · exact absurd rfl hid
    · exact hrest

/-- The revocations of a quarantine, and the last write to its target. -/
theorem ends_revocations {m : Ledger} (hm : m.Balanced) (message : String) {β : Type}
    {f : Unit → Proc Fault Ledger β} {U : Except Fault β → Ledger → Prop}
    (hf : ∀ t, Revoking domainId m t [] → Proc.Ends (f ()) t U) :
    Proc.Ends ((m.affected domainId).forM (fun r => terminalize r.lease.leaseId .revoked message) >>= f)
      m U := by
  have hstart : Revoking domainId m m (m.affected domainId) :=
    { balanced := hm
      follows := .refl m
      shifts := .refl m
      distinct := by
        have hids := hm.leaseIds
        rw [map_leaseId] at hids
        exact hids.sublist (List.filter_sublist.map _)
      pending := fun r hr => by
        obtain ⟨hin, hcond⟩ := List.mem_filter.mp hr
        simp only [Bool.and_eq_true, beq_iff_eq] at hcond
        exact ⟨hin, hcond.1⟩
      active := fun r hr hactive =>
        ⟨hr, fun htouch => List.mem_filter.mpr ⟨hr, by simp [hactive, htouch]⟩⟩ }
  refine Proc.ends_bind ((Proc.ends_forM (I := Revoking domainId m) (fun t x xs h => ?_) hstart).mono ?_)
  · obtain ⟨hx, hactive⟩ := h.pending x List.mem_cons_self
    exact Proc.ends_of_exec (exec_terminalize h.balanced hx hactive) ⟨rfl, h.terminated⟩
  · rintro r t ⟨rfl, ht⟩
    exact ⟨fun _ _ => hf t ht, fun e he => by cases he⟩

/-- The first write to the target of a quarantine. -/
def marked (reason : String) (d : DomainRecord) : DomainRecord :=
  quarantined reason { d with quarantineEpoch := d.quarantineEpoch + 1 }

/-- The attributes a telemetry sample does not write. -/
structure SameHealth (d d' : DomainRecord) : Prop where
  domain : d'.domain = d.domain
  allocatedBytes : d'.allocatedBytes = d.allocatedBytes
  state : d'.state = d.state
  epoch : d'.quarantineEpoch = d.quarantineEpoch

theorem SameHealth.id {d' : DomainRecord} (h : SameHealth d d') : d'.id = d.id :=
  congrArg MemoryDomain.domainId h.domain

theorem item_domain? (h : s.domain? domainId = some d) :
    (item domainId (s.domain? domainId) : Except Fault DomainRecord) = .ok d := by
  rw [h]
  rfl

/-- **`_quarantine_locked`**, also right after a sample was stored: it finds the domain quarantined,
or has no epoch left, or revokes every lease of the domain. -/
theorem ends_quarantineLocked (reason : String) (hs : s.Sound) {g : DomainRecord → DomainRecord}
    (hg : ∀ d, SameHealth d (g d)) (hd : s.domain? domainId = some d) :
    Proc.Ends (quarantineLocked domainId reason) (s.writeDomain domainId g) fun r t =>
      (∃ leases, r = .ok leases ∧ t.Sound ∧ Follows s t ∧ Holds s t) ∨
      (d.state ≠ .quarantined ∧ d.quarantineEpoch = maxU64 ∧
        r = .error (fault .byteArithmetic "quarantine epoch space is exhausted") ∧
        t = s.writeDomain domainId g) := by
  have hgid : ∀ d, (g d).id = d.id := fun d => (hg d).id
  unfold quarantineLocked
  refine Proc.ends_bind_get (Proc.ends_bind_lift_ok
    (item_domain? (domain?_writeDomain hs.ids hgid hd)) ?_)
  by_cases hq : (g d).state = .quarantined
  · rw [if_pos hq]
    refine .inl ⟨[], rfl, ⟨hs.toBalanced.writeDomain fun e he hid => ?_, ?_⟩, follows_writeDomain,
      (shifts_writeDomain hgid fun e => by rw [(hg e).state]).holds⟩
    · obtain rfl : e = d := by
        have := domain?_of_mem hs.ids he
        rw [hid, hd] at this
        exact (Option.some.inj this).symm
      exact ⟨(hg e).domain, (hg e).allocatedBytes, recompute_of_quarantined hq⟩
    · intro r hr hactive e he htouch
      obtain ⟨e₀, he₀, hid, hstate⟩ :=
        (shifts_writeDomain hgid fun e => by rw [(hg e).state]).before he
      rw [ne_eq, hstate]
      exact hs.clear r hr hactive e₀ he₀ (hid ▸ htouch)
  · rw [if_neg hq]
    refine Proc.ends_bind_raiseIf (fun hmax => ?_) fun _ => ?_
    · refine .inr ⟨(hg d).state ▸ hq, ?_, rfl, rfl⟩
      rw [← (hg d).epoch]
      simpa using hmax
    · refine Proc.ends_bind_modify ?_
      rw [writeDomain_writeDomain hgid]
      have hbalanced : (s.writeDomain domainId (marked reason ∘ g)).Balanced :=
        hs.toBalanced.writeDomain fun e _ _ =>
          ⟨(hg e).domain, (hg e).allocatedBytes, recompute_of_quarantined rfl⟩
      refine ends_revocations hbalanced _ fun t ht => Proc.ends_bind_modify (.inl ⟨_, rfl, ?_, ?_, ?_⟩)
      · refine ⟨ht.balanced.writeDomain fun e _ _ => ⟨rfl, rfl, recompute_of_quarantined rfl⟩, ?_⟩
        intro r hr hactive e he htouch
        obtain ⟨hm, hnone⟩ := ht.active r hr hactive
        obtain ⟨e₁, he₁, rfl⟩ := List.mem_map.mp he
        have hne : e₁.id ≠ domainId := fun hid => by
          rw [if_pos hid] at htouch
          exact absurd (hnone (hid ▸ htouch)) List.not_mem_nil
        rw [if_neg hne] at htouch ⊢
        obtain ⟨e₂, he₂, hid₂, hstate⟩ := ht.shifts.before he₁
        obtain ⟨e₃, he₃, rfl⟩ := List.mem_map.mp he₂
        by_cases hid₃ : e₃.id = domainId
        · rw [if_pos hid₃] at hid₂
          exact absurd (hid₂.trans ((hgid e₃).trans hid₃)) hne
        · rw [if_neg hid₃] at hid₂ hstate
          rw [ne_eq, hstate]
          exact hs.clear r hm hactive e₃ he₃ (hid₂ ▸ htouch)
      · exact (follows_writeDomain.trans ht.follows).trans follows_writeDomain
      · refine Holds.trans ?_ (ht.shifts.holds.trans (holds_writeDomain (fun _ => rfl) fun _ _ => rfl))
        exact holds_writeDomain hgid fun _ _ => rfl

end Quarantine

end Ledger

end LumaOS.Memory
