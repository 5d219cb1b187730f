import LumaOS.Memory.Steps

/-!
# Every call keeps the ledger sound

`good_call` assembles `Good` for the seven calls. The one state that a call can leave unsettled is
named by `Exhausted`.
-/

namespace LumaOS.Memory.Ledger

open LumaOS.Base

variable {s : Ledger} {d : DomainRecord}

/-! ## Quarantine and its end -/

theorem ends_quarantine (hs : s.Sound) (domainId reason : Arg) :
    Proc.Ends (quarantine domainId reason) s
      (Served s (.quarantine domainId reason) Reply.revoked) := by
  have hop : ∀ o r k, Op.quarantine domainId reason ≠ .admitLease o r k := fun _ _ _ h => by cases h
  unfold quarantine
  refine Proc.ends_bind_gives gives_identifier (fun e he => good_refused hs he.underflow) ?_
  rintro name -
  refine Proc.ends_bind_gives gives_identifier (fun e he => good_refused hs he.underflow) ?_
  rintro text -
  refine Proc.ends_bind_get (Proc.ends_bind_gives (gives_found plain_invalid)
    (fun e he => good_refused hs he.underflow) fun d hd => ?_)
  have hlocked := ends_quarantineLocked text hs
    (fun d => ⟨rfl, rfl, rfl, rfl⟩ : ∀ d, SameHealth d d) hd
  rw [writeDomain_id] at hlocked
  refine hlocked.mono ?_
  rintro r t (⟨leases, rfl, ht, hfollows, hholds⟩ | ⟨-, -, rfl, rfl⟩)
  · exact
      { sound := ht
        follows := hfollows
        underflow := fun h => by cases h
        denied := fun f h => by cases h
        stays := fun d hd hq => .inl (hholds d hd hq)
        remembers := fun _ _ _ _ h => absurd h (hop _ _ _) }
  · exact good_refused hs (plain_arithmetic (by decide)).underflow

theorem reads_snapshotOf (domainId : String) :
    Proc.Reads Plain (fun _ => True) (snapshotOf domainId) s := by
  refine Proc.reads_bind (Q := fun t => t = s) ⟨rfl, rfl⟩ ?_
  rintro t rfl
  refine Proc.reads_bind (Q := fun _ => True) (Proc.reads_lift ?_) fun _ _ => ⟨rfl, trivial⟩
  cases t.domain? domainId with
  | none => exact plain_fault (by decide) (by decide)
  | some d => exact trivial

/-- A snapshot after the writes of a call. -/
theorem ends_snapshotOf {t : Ledger} {op : Op} {domainId : String}
    (h : ∀ r : Except Fault Reply, (∀ f, r = .error f → Plain f) →
      (∀ l, r ≠ .ok (.lease l)) → Good s op r t) :
    Proc.Ends (snapshotOf domainId) t (Served s op Reply.snapshot) := by
  refine (reads_snapshotOf domainId).mono ?_
  rintro r u ⟨rfl, hr⟩
  refine h _ (fun f hf => ?_) fun l hl => ?_
  · cases r with
    | ok a => cases hf
    | error e =>
      cases hf
      exact hr
  · cases r with
    | ok a => cases hl
    | error e => cases hl

/-! ## A write and a recomputation -/

section Judge

variable {domainId : String} {f : DomainRecord → DomainRecord}
  (hdomain : ∀ d, (f d).domain = d.domain) (hbytes : ∀ d, (f d).allocatedBytes = d.allocatedBytes)

include hdomain hbytes

theorem exec_recompute_write (hids : (s.domains.map DomainRecord.id).Nodup) (hwithin : d.Within)
    (hd : s.domain? domainId = some d) :
    Proc.exec (recompute domainId) (s.writeDomain domainId f) =
      (.ok (f d).recompute, s.writeDomain domainId (DomainRecord.recompute ∘ f)) := by
  have hid : ∀ d, (f d).id = d.id := fun d => congrArg MemoryDomain.domainId (hdomain d)
  obtain ⟨hin, hname⟩ := domain?_eq_some (domain?_writeDomain hids hid hd)
  have hwithin' : (f d).Within := by
    unfold DomainRecord.Within at *
    rwa [hdomain, hbytes]
  have hexec := exec_recompute_within (by rwa [ids_writeDomain hid]) hin hwithin'
  rwa [hname, writeDomain_writeDomain hid] at hexec

theorem sound_judged (hs : s.Sound)
    (hstate : ∀ d, (f d).state = .quarantined → d.state = .quarantined) :
    (s.writeDomain domainId (DomainRecord.recompute ∘ f)).Sound := by
  refine ⟨hs.toBalanced.writeDomain fun e he _ => ?_, fun r hr hactive e he htouch => ?_⟩
  · have hmarks := hs.watermarks e he
    rw [← hdomain e] at hmarks
    exact ⟨DomainRecord.recompute_domain.trans (hdomain e),
      DomainRecord.recompute_allocatedBytes.trans (hbytes e), DomainRecord.recompute_recompute hmarks⟩
  · obtain ⟨e₀, he₀, rfl⟩ := List.mem_map.mp he
    by_cases hid : e₀.id = domainId
    · rw [if_pos hid] at htouch ⊢
      have hsame : DomainRecord.id ((DomainRecord.recompute ∘ f) e₀) = e₀.id :=
        DomainRecord.recompute_id.trans (congrArg MemoryDomain.domainId (hdomain e₀))
      rw [hsame] at htouch
      exact fun hq => hs.clear r hr hactive e₀ he₀ htouch
        (hstate e₀ (DomainRecord.recompute_quarantined.mp hq))
    · rw [if_neg hid] at htouch ⊢
      exact hs.clear r hr hactive e₀ he₀ htouch

end Judge

/-- The first write of `clear_quarantine`. -/
def cleared (d : DomainRecord) : DomainRecord := { d with state := .healthy, stateReason := none }

theorem ends_clearQuarantine (hs : s.Sound) (domainId expectedEpoch : Arg) :
    Proc.Ends (clearQuarantine domainId expectedEpoch) s
      (Served s (.clearQuarantine domainId expectedEpoch) Reply.snapshot) := by
  unfold clearQuarantine
  refine Proc.ends_bind_gives gives_identifier (fun e he => good_refused hs he.underflow) ?_
  rintro name ⟨rfl, -⟩
  refine Proc.ends_bind_gives gives_checkedU64 (fun e he => good_refused hs he.underflow) ?_
  rintro epoch ⟨-, rfl⟩
  refine Proc.ends_bind_get (Proc.ends_bind_gives (gives_found plain_invalid)
    (fun e he => good_refused hs he.underflow) fun d hd => ?_)
  refine Proc.ends_bind_raiseIf (fun _ => ?_) fun _ => ?_
  · exact good_refused hs (plain_fault (by decide) (by decide)).underflow
  refine Proc.ends_bind_raiseIf (fun _ => ?_) fun hepoch => ?_
  · exact good_refused hs (plain_fault (by decide) (by decide)).underflow
  have hepoch : epoch = d.quarantineEpoch := by simpa using hepoch
  subst hepoch
  refine Proc.ends_bind_modify (Proc.ends_bind_ok
    (exec_recompute_write (f := cleared) (fun _ => rfl) (fun _ => rfl) hs.ids
      (hs.within d (domain?_eq_some hd).1) hd) ?_)
  refine ends_snapshotOf fun r hplain hlease => ?_
  exact
    { sound := sound_judged (fun _ => rfl) (fun _ => rfl) hs fun _ h => by cases h
      follows := follows_writeDomain
      underflow := fun h => (hplain _ h).underflow rfl
      denied := fun f h hkind => absurd hkind (hplain f h).denied
      stays := fun e he hq => by
        obtain ⟨hmem, rfl⟩ := domain?_eq_some hd
        by_cases hid : e.id = d.id
        · rw [List.inj_on_of_nodup_map hs.ids he hmem hid]
          exact .inr rfl
        · exact .inl ⟨e, List.mem_map.mpr ⟨e, he, if_neg hid⟩, rfl, hq⟩
      remembers := fun _ _ _ l _ h => absurd h (hlease l) }

/-! ## Telemetry -/

/-- The write of a sample. -/
def sampled (sample : TelemetrySample) (d : DomainRecord) : DomainRecord :=
  { d with lastTelemetry := some sample, observedUsedBytes := some sample.usedBytes }

/-- **The call that breaks off between its writes**: a new sample asks for a quarantine and the domain
has no quarantine epoch left. -/
def Exhausted (s : Ledger) (op : Op) : Prop :=
  ∃ sample d, op = .updateTelemetry (some sample) ∧ s.domain? sample.domainId = some d ∧
    checkSequence d.lastTelemetry sample = .ok () ∧ d.lastTelemetry ≠ some sample ∧
    (sample.totalBytes < d.domain.budgetBytes ∨ sample.deviceError = true) ∧
    d.state ≠ .quarantined ∧ d.quarantineEpoch = maxU64

theorem gives_checkSequence {previous : Option TelemetrySample} {sample : TelemetrySample} :
    Gives Plain (fun _ => checkSequence previous sample = .ok ()) (checkSequence previous sample) := by
  cases h : checkSequence previous sample with
  | ok u => exact rfl
  | error e =>
    have : Gives Plain (fun _ : Unit => True) (checkSequence previous sample) := by
      cases previous with
      | none => exact trivial
      | some previous =>
        refine gives_bind_raiseIf (fun _ => plain_fault (by decide) (by decide)) fun _ => ?_
        exact gives_raiseIf (fun _ => plain_fault (by decide) (by decide)) fun _ => trivial
    rwa [h] at this

theorem ends_updateTelemetry (hs : s.Sound) (sample : Option TelemetrySample)
    (hlive : ¬Exhausted s (.updateTelemetry sample)) :
    Proc.Ends (updateTelemetry sample) s
      (Served s (.updateTelemetry sample) Reply.snapshot) := by
  have hop : ∀ o r k, Op.updateTelemetry sample ≠ .admitLease o r k := fun _ _ _ h => by cases h
  unfold updateTelemetry
  refine Proc.ends_bind_gives (gives_found plain_invalid) (fun e he => good_refused hs he.underflow) ?_
  rintro x rfl
  refine Proc.ends_bind_get (Proc.ends_bind_gives (gives_found plain_invalid)
    (fun e he => good_refused hs he.underflow) fun d hd => ?_)
  refine Proc.ends_bind_gives gives_checkSequence (fun e he => good_refused hs he.underflow)
    fun _ hsequence => ?_
  split
  · exact ends_snapshotOf fun r hplain _ => good_shift hs (.refl s) (.refl s) hplain hop
  rename_i hnew
  refine Proc.ends_bind_modify (Proc.ends_bind ?_)
  -- whatever is done about the health, the state it leaves is sound
  have hdone : Proc.Ends (assess d.domain x) (s.writeDomain x.domainId (sampled x)) fun r t =>
      r = .ok () ∧ t.Sound ∧ Follows s t ∧ Holds s t := by
    have hlocked : (x.totalBytes < d.domain.budgetBytes ∨ x.deviceError = true) → ∀ reason,
        Proc.Ends (do let _ ← quarantineLocked x.domainId reason)
          (s.writeDomain x.domainId (sampled x)) fun r t =>
            r = .ok () ∧ t.Sound ∧ Follows s t ∧ Holds s t := by
      intro hcause reason
      refine Proc.ends_bind ((ends_quarantineLocked reason (g := sampled x) hs
        (fun _ => ⟨rfl, rfl, rfl, rfl⟩) hd).mono ?_)
      rintro r t (⟨leases, rfl, ht, hfollows, hholds⟩ | ⟨hstate, hepoch, -, -⟩)
      · exact ⟨fun _ _ => ⟨rfl, ht, hfollows, hholds⟩, fun e he => by cases he⟩
      · exact absurd ⟨x, d, rfl, hd, hsequence, hnew, hcause, hstate, hepoch⟩ hlive
    unfold assess
    split
    · rename_i hcapacity
      exact hlocked (.inl hcapacity) _
    · split
      · rename_i hdevice
        exact hlocked (.inr hdevice) _
      · refine Proc.ends_bind_ok (exec_recompute_write (f := sampled x) (fun _ => rfl) (fun _ => rfl)
          hs.ids (hs.within d (domain?_eq_some hd).1) hd) ?_
        refine ⟨rfl, sound_judged (fun _ => rfl) (fun _ => rfl) hs fun _ h => h, follows_writeDomain,
          Shifts.holds (shifts_writeDomain (fun _ => DomainRecord.recompute_id) fun e => ?_)⟩
        exact DomainRecord.recompute_quarantined
  refine hdone.mono ?_
  rintro r t ⟨rfl, ht, hfollows, hholds⟩
  refine ⟨fun _ _ => ends_snapshotOf fun r hplain hlease => ?_, fun e he => by cases he⟩
  exact
    { sound := ht
      follows := hfollows
      underflow := fun h => (hplain _ h).underflow rfl
      denied := fun f h hkind => absurd hkind (hplain f h).denied
      stays := fun d hd hq => .inl (hholds d hd hq)
      remembers := fun _ _ _ l _ h => absurd h (hlease l) }

/-! ## Admission -/

section Admission

variable {x : MemoryReservation} {l : ResourceLease}

/-- The reservation has room in a domain that is not quarantined. -/
structure Room (s : Ledger) (x : MemoryReservation) (d : DomainRecord) : Prop where
  found : s.domain? x.domainId = some d
  open_ : d.state ≠ .quarantined
  fits : d.allocatedBytes + x.bytes ≤ d.domain.allocatableBytes

theorem reads_prospect (hs : s.Balanced) (x : MemoryReservation) :
    Proc.Reads (fun f => f ≠ underflow) (fun v => v = (x.domainId, s.allocatedIn x.domainId + x.bytes) ∧
      ∃ d, Room s x d) (prospect x) s := by
  have hdenied : ∀ {reason : String}, denied reason x.domainId ≠ underflow := fun h =>
    absurd (congrArg Fault.kind h) (by simp [denied, underflow, fault])
  refine Proc.reads_bind (Q := fun t => t = s) ⟨rfl, rfl⟩ ?_
  rintro t rfl
  refine Proc.reads_bind (Q := fun d => t.domain? x.domainId = some d) (Proc.reads_lift ?_)
    fun d hd => ?_
  · cases h : t.domain? x.domainId with
    | none => exact hdenied
    | some d => exact rfl
  refine Proc.reads_bind (Q := fun e => e = d)
    (Proc.ends_of_exec (exec_recompute hs hd) ⟨rfl, rfl⟩) ?_
  rintro e rfl
  refine Proc.reads_bind (Q := fun _ => e.state ≠ .quarantined) (Proc.reads_lift
    (gives_raiseIf (fun _ => hdenied) fun hstate => by simpa using hstate)) fun _ hopen => ?_
  refine Proc.reads_bind (Q := fun _ => True) (Proc.reads_lift
    (gives_raiseIf (fun _ => hdenied) fun _ => trivial)) fun _ _ => ?_
  refine Proc.reads_bind (Proc.reads_lift (gives_checkedAddBytes.mono_error fun _ h => h.underflow)) ?_
  rintro n rfl
  refine Proc.reads_bind (Q := fun _ => e.allocatedBytes + x.bytes ≤ e.domain.allocatableBytes)
    (Proc.reads_lift (gives_raiseIf (fun _ => hdenied) fun hle => by simpa using hle))
    fun _ hfits => ⟨rfl, ?_, e, hd, hopen, hfits⟩
  unfold allocatedIn
  rw [hd]
  rfl

/-- `_new_lease_id_locked` draws; what it returns is new. -/
theorem ends_newLeaseId : ∀ (tries : Nat) (s : Ledger), Proc.Ends (newLeaseId tries) s fun r t =>
    (∃ n, t = { s with drawn := n }) ∧ Gives Plain (fun id => s.lease? id = none) r
  | 0, s => ⟨⟨s.drawn, rfl⟩, plain_fault (by decide) (by decide)⟩
  | tries + 1, s => by
    have hdraw : Proc.Ends drawId s fun r t => t = { s with drawn := s.drawn + 1 } ∧
        Gives Plain (fun _ => True) r := by
      unfold drawId
      refine Proc.ends_bind_get (Proc.ends_bind_set ?_)
      refine Proc.ends_bind_gives (gives_found (plain_fault (by decide) (by decide)))
        (fun e he => ⟨rfl, he⟩) fun value _ => ?_
      exact ⟨rfl, gives_identifier.mono fun _ _ => trivial⟩
    refine Proc.ends_bind (hdraw.mono ?_)
    rintro r t ⟨rfl, hr⟩
    constructor
    · rintro candidate rfl
      refine Proc.ends_bind_get ?_
      split
      · rename_i hnone
        exact ⟨⟨_, rfl⟩, hnone⟩
      · refine (ends_newLeaseId tries _).mono ?_
        rintro r t ⟨⟨n, rfl⟩, hr⟩
        exact ⟨⟨n, rfl⟩, hr⟩
    · rintro e rfl
      exact ⟨⟨_, rfl⟩, hr⟩

/-- The ledger after the generation was taken and `n` IDs were drawn. -/
def counted (generation n : Nat) (s : Ledger) : Ledger :=
  { s with
    nextGeneration := if generation = maxU64 then none else some (generation + 1)
    drawn := n }

theorem counted_next {generation n g : Nat} (h : (s.counted generation n).nextGeneration = some g) :
    g = generation + 1 ∧ generation ≠ maxU64 := by
  unfold counted at h
  dsimp only at h
  split at h
  · cases h
  · rename_i hne
    exact ⟨(Option.some.inj h).symm, hne⟩

theorem ends_takeGeneration : Proc.Ends takeGeneration s fun r t =>
    (∃ e, r = .error e ∧ Plain e ∧ t = s) ∨
    ∃ g, r = .ok g ∧ s.nextGeneration = some g ∧ t = s.counted g s.drawn := by
  unfold takeGeneration
  refine Proc.ends_bind_get (Proc.ends_bind_gives (gives_found (plain_arithmetic (by decide)))
    (fun e he => .inl ⟨e, rfl, he, rfl⟩) fun g hg => Proc.ends_bind_set ?_)
  exact .inr ⟨g, rfl, hg, rfl⟩

theorem Sound.counted (hs : s.Sound) {generation : Nat} (n : Nat)
    (h : s.nextGeneration = some generation) : (s.counted generation n).Sound where
  ids := hs.ids
  watermarks := hs.watermarks
  settled := hs.settled
  within := hs.within
  accounted := hs.accounted
  leaseIds := hs.leaseIds
  placed l hl := ⟨(hs.placed l hl).unique, (hs.placed l hl).known⟩
  increasing := hs.increasing
  next g hg := by
    obtain ⟨rfl, hne⟩ := counted_next hg
    obtain ⟨hmax, hless⟩ := hs.next generation h
    exact ⟨by omega, fun l hl => Nat.lt_succ_of_lt (hless l hl)⟩
  replays := hs.replays
  clear := hs.clear

theorem follows_admitted : Follows s (s.admitted l) := by
  refine ⟨fun i r hr => ⟨r, ?_, rfl, fun _ => rfl⟩, fun key entry he => ?_⟩
  · unfold admitted addLease
    rw [List.getElem?_append_left (List.getElem?_eq_some_iff.mp hr).1]
    exact hr
  · rw [replay?_admitted, he]
    rfl

/-- The ledger after an admission for which there was room everywhere. -/
theorem Sound.admitted (hs : s.Sound) (hunique : (l.reservations.map (·.domainId)).Nodup)
    (hroom : ∀ x ∈ l.reservations, ∃ d, Room s x d) (hfresh : s.lease? l.leaseId = none)
    (hgeneration : ∀ l' ∈ s.tokens, l'.generation < l.generation)
    (hnext : ∀ g, s.nextGeneration = some g → l.generation < g) :
    l.Placed s ∧ s.Fits l ∧ (s.admitted l).Sound := by
  have hplaced : l.Placed s := by
    refine ⟨hunique, fun x hx => ?_⟩
    obtain ⟨d, hd⟩ := hroom x hx
    obtain ⟨hmem, hid⟩ := domain?_eq_some hd.found
    exact List.mem_map.mpr ⟨d, hmem, hid⟩
  -- the room of a reservation, seen from its domain
  have hthere : ∀ d ∈ s.domains, ∀ x ∈ l.reservations, x.domainId = d.id → Room s x d := by
    intro d hd x hx hid
    obtain ⟨e, he⟩ := hroom x hx
    have hfound := he.found
    rw [hid, domain?_of_mem hs.ids hd] at hfound
    cases hfound
    exact he
  have hfits : s.Fits l := by
    intro d hd
    by_cases hin : d.id ∈ l.reservations.map (·.domainId)
    · obtain ⟨x, hx, hid⟩ := List.mem_map.mp hin
      rw [← hid, ResourceLease.bytesFor_of_mem hunique hx]
      exact (hthere d hd x hx hid).fits
    · rw [ResourceLease.bytesFor_eq_zero hin]
      exact hs.within d hd
  refine ⟨hplaced, hfits,
    hs.toBalanced.admitted hplaced hfits hfresh hgeneration hnext, fun r hr hactive d hd htouch => ?_⟩
  have hshifts : Shifts s (s.admitted l) := shifts_adjusted rfl
  obtain ⟨d₀, hd₀, hid, hq⟩ := hshifts.before hd
  rw [ne_eq, hq]
  rw [hid] at htouch
  rcases List.mem_append.mp hr with hold | hone
  · exact hs.clear r hold hactive d₀ hd₀ htouch
  · rw [List.mem_singleton.mp hone, ResourceLease.touches_iff] at htouch
    obtain ⟨x, hx, hxd⟩ := List.mem_map.mp htouch
    exact (hthere d₀ hd₀ x hx hxd).open_

theorem ends_admitNew (hs : s.Sound) {ownerId idempotencyKey : String}
    {canonical : List MemoryReservation} (hunique : (canonical.map (·.domainId)).Nodup)
    (hkey : s.replay? (ownerId, idempotencyKey) = none) :
    Proc.Ends (admitNew ownerId idempotencyKey canonical) s fun r t =>
      t.Sound ∧ Follows s t ∧ Holds s t ∧
      Gives (fun f => f ≠ underflow ∧ (f.kind = .admissionDenied → t = s))
        (fun l => t.replay? (ownerId, idempotencyKey) = some (canonical, l.leaseId) ∧ l ∈ t.tokens) r := by
  have hrefl : Holds s s := (Shifts.refl s).holds
  unfold admitNew
  refine Proc.ends_bind ((Proc.reads_mapM fun x _ => reads_prospect hs.toBalanced x).mono ?_)
  rintro r t ⟨rfl, hr⟩
  refine ⟨?_, fun e he => by subst he; exact ⟨hs, .refl t, hrefl, hr, fun _ => rfl⟩⟩
  rintro prospective rfl
  have hroom : ∀ x ∈ canonical, ∃ d, Room t x d := by
    intro x hx
    obtain ⟨i, hi, rfl⟩ := List.getElem_of_mem hx
    have hi' : i < prospective.length := by
      have := hr.length_eq
      omega
    exact (hr.get hi hi').2
  have hvalues : prospective =
      canonical.map fun x => (x.domainId, t.allocatedIn x.domainId + x.bytes) := by
    refine List.ext_getElem (by rw [List.length_map, hr.length_eq]) fun i hi hi' => ?_
    rw [List.getElem_map]
    rw [List.length_map] at hi'
    exact (hr.get hi' hi).1
  subst hvalues
  refine Proc.ends_bind (ends_takeGeneration.mono ?_)
  rintro r u (⟨e, rfl, he, rfl⟩ | ⟨generation, rfl, hgeneration, rfl⟩)
  · refine ⟨fun _ h => (by cases h), fun f hf => ?_⟩
    cases hf
    exact ⟨hs, .refl u, hrefl, he.underflow, fun _ => rfl⟩
  refine ⟨fun g hg => ?_, fun _ h => by cases h⟩
  cases hg
  obtain ⟨hmax, hless⟩ := hs.next generation hgeneration
  refine Proc.ends_bind ((ends_newLeaseId 32 _).mono ?_)
  rintro r u ⟨⟨n, rfl⟩, hr⟩
  have hcounted := hs.counted n hgeneration
  have hsame : Follows t (t.counted generation n) := Follows.of_eq rfl rfl
  have hplain : ∀ e, Plain e → e ≠ underflow ∧
      (e.kind = .admissionDenied → t.counted generation n = t) := fun e he =>
    ⟨he.underflow, fun hkind => absurd hkind he.denied⟩
  refine ⟨?_, fun e he => by subst he; exact ⟨hcounted, hsame, hrefl, hplain e hr⟩⟩
  rintro leaseId rfl
  refine Proc.ends_bind_gives gives_postInit
    (fun e he => ⟨hcounted, hsame, hrefl, hplain e he⟩) fun _ _ => ?_
  refine Proc.ends_bind_modify (Proc.ends_bind_modify ?_)
  obtain ⟨hplaced, hfits, hadmitted⟩ := hcounted.admitted
    (l := ⟨leaseId, generation, ownerId, idempotencyKey, canonical⟩) hunique
    (fun x hx => (hroom x hx).imp fun d hd => ⟨hd.found, hd.open_, hd.fits⟩) hr hless
    fun g hg => by
      obtain ⟨rfl, -⟩ := counted_next hg
      exact Nat.lt_succ_self _
  refine Proc.ends_bind_ok (exec_admitted hcounted.toBalanced hplaced hfits) ?_
  have hshifts : Shifts t ((t.counted generation n).admitted
      ⟨leaseId, generation, ownerId, idempotencyKey, canonical⟩) := shifts_adjusted rfl
  have hknown : ((t.counted generation n).admitted
      ⟨leaseId, generation, ownerId, idempotencyKey, canonical⟩).replay? (ownerId, idempotencyKey) =
      some (canonical, leaseId) := by
    have hnone : (t.counted generation n).replay? (ownerId, idempotencyKey) = none := hkey
    rw [replay?_admitted, if_pos rfl, hnone]
    rfl
  refine ⟨hadmitted, hsame.trans follows_admitted, hshifts.holds, hknown, ?_⟩
  exact tokens_admitted ▸ List.mem_append_right _ (List.mem_singleton_self _)

theorem ends_admitLease (hs : s.Sound) (ownerId : Arg) (reservations : Reservations)
    (idempotencyKey : Arg) :
    Proc.Ends (admitLease ownerId reservations idempotencyKey) s
      (Served s (.admitLease ownerId reservations idempotencyKey) Reply.lease) := by
  unfold admitLease
  refine Proc.ends_bind_gives gives_identifier.self
    (fun e he => good_refused hs he.underflow) fun owner howner => ?_
  refine Proc.ends_bind_gives gives_identifier.self
    (fun e he => good_refused hs he.underflow) fun key hkey => ?_
  refine Proc.ends_bind_gives gives_canonicalReservations.self
    (fun e he => good_refused hs he.underflow) fun canonical hcanonical => ?_
  refine Proc.ends_bind_get ?_
  cases hreplay : s.replay? (owner, key) with
  | some entry =>
    dsimp only
    unfold admitReplay
    refine Proc.ends_bind_raiseIf (fun _ => ?_) fun hsame => ?_
    · exact good_refused hs (plain_fault (by decide) (by decide)).underflow
    have hsame : entry.1 = canonical := by simpa using hsame
    obtain ⟨l, hl, hid, -, -⟩ := hs.replays _ _ hreplay
    obtain ⟨r, hr, rfl⟩ := List.mem_map.mp hl
    have hitem : (item entry.2 (s.lease? entry.2) : Except Fault LeaseRecord) = .ok r := by
      rw [← hid, lease?_of_mem hs.leaseIds hr]
      rfl
    refine Proc.ends_bind_get (Proc.ends_bind_lift_ok hitem ?_)
    exact
      { sound := hs
        follows := .refl s
        underflow := fun h => by cases h
        denied := fun f h => by cases h
        stays := fun d hd hq => .inl ⟨d, hd, rfl, hq⟩
        remembers := fun o res k l' hop hr' => by
          cases hop
          cases hr'
          exact ⟨owner, key, canonical, howner.1, hkey.1, hcanonical.1,
            hreplay.trans (by rw [hid, ← hsame]), hl⟩ }
  | none =>
    obtain ⟨hok, -, -, -, hunique⟩ := hcanonical
    refine (ends_admitNew hs hunique hreplay).mono ?_
    rintro r t ⟨ht, hfollows, hholds, hr⟩
    refine
      { sound := ht
        follows := hfollows
        underflow := fun h => ?_
        denied := fun f h hkind => ?_
        stays := fun d hd hq => .inl (hholds d hd hq)
        remembers := fun o res k l hop hr' => ?_ }
    · cases r with
      | ok l => cases h
      | error e =>
        cases h
        exact hr.1 rfl
    · cases r with
      | ok l => cases h
      | error e =>
        cases h
        exact hr.2 hkind
    · cases hop
      cases r with
      | ok l' =>
        cases hr'
        exact ⟨owner, key, canonical, howner.1, hkey.1, hok, hr.1, hr.2⟩
      | error e => cases hr'

end Admission

/-- **Every call of a sound ledger is good**, unless it is the one that breaks off. -/
theorem good_call (hs : s.Sound) (op : Op) (hlive : ¬Exhausted s op) :
    Good s op (step s op).1 (step s op).2 := by
  have hends : Proc.Ends (call op) s (Good s op) := by
    cases op with
    | admitLease o r k => exact Proc.ends_map (ends_admitLease hs o r k)
    | release l g o => exact Proc.ends_map (ends_release hs l g o)
    | quarantine i r => exact Proc.ends_map (ends_quarantine hs i r)
    | clearQuarantine i e => exact Proc.ends_map (ends_clearQuarantine hs i e)
    | updateTelemetry x => exact Proc.ends_map (ends_updateTelemetry hs x hlive)
    | domainSnapshot i =>
      exact Proc.ends_map (served_reads hs (reads_domainSnapshot hs.toBalanced i)
        fun _ _ _ h => by cases h)
    | snapshots =>
      exact Proc.ends_map (served_reads hs (reads_snapshots hs.toBalanced)
        fun _ _ _ h => by cases h)
  exact hends

end LumaOS.Memory.Ledger
