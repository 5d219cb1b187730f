import LumaOS.Memory.Calls

/-!
# Whole runs of the resource ledger

`Accounts s ops` is what the ledger promises of a run: exact sums, no underflow, quarantine, one
change of a lease's status, increasing generations, replays, and domain states that a recomputation
does not move. Hysteresis needs two different watermarks. `MemoryDomain` accepts equal ones (they
are the default), and then the promise breaks as soon as a load is exactly there:
`_recompute_state_locked` enters pressure at `load >= enter` and leaves it at `load <= exit`, so it
flips the state every time it runs, and so do `domain_snapshot`, `snapshots` and a denied `admit`.
`ledger_accounts_iff` says that this is the only way, up to the call `Exhausted` names.
-/

namespace LumaOS.Memory.Ledger

open LumaOS.Base

variable {s : Ledger}

abbrev Moment := Event Ledger Op (Except Fault Reply)

/-- The states a run goes through. -/
def reached (s : Ledger) (ops : List Op) : List Ledger := s :: (events step s ops).map Event.after

/-- A call that must not change anything, does not. -/
structure Still (t : Ledger) : Prop where
  domainSnapshot : ∀ domainId, (step t (.domainSnapshot domainId)).2 = t
  snapshots : (step t .snapshots).2 = t
  denied : ∀ ownerId reservations key f,
    (step t (.admitLease ownerId reservations key)).1 = .error f → f.kind = .admissionDenied →
      (step t (.admitLease ownerId reservations key)).2 = t

/-- **The accounts of a run.** -/
structure Accounts (s : Ledger) (ops : List Op) : Prop where
  sums : ∀ t ∈ reached s ops, ∀ d ∈ t.domains,
    d.allocatedBytes = t.activeBytes d.id ∧ d.allocatedBytes ≤ d.domain.allocatableBytes
  subtraction : ∀ e ∈ events step s ops, e.result ≠ .error underflow
  quarantine : ∀ t ∈ reached s ops, ∀ r ∈ t.leases, r.status = .active → ∀ d ∈ t.domains,
    r.lease.touches d.id = true → d.state ≠ .quarantined
  leaves : ∀ e ∈ events step s ops, ∀ d ∈ e.before.domains, d.state = .quarantined →
    (∃ d' ∈ e.after.domains, d'.id = d.id ∧ d'.state = .quarantined) ∨
    e.op = .clearQuarantine (.text d.id) (.int d.quarantineEpoch)
  statuses : (reached s ops).Pairwise fun t t' => ∀ (i : Nat) (r : LeaseRecord),
    t.leases[i]? = some r → ∃ r' : LeaseRecord, t'.leases[i]? = some r' ∧ r'.lease = r.lease ∧
      (r.status ≠ .active → r' = r)
  generations : ∀ t ∈ reached s ops,
    t.leases.Pairwise fun r r' => r.lease.generation < r'.lease.generation
  replays : ∀ (past rest : List Moment) (e : Moment), events step s ops = past ++ e :: rest →
    ∀ ownerId reservations key l, e.op = .admitLease ownerId reservations key →
      e.result = .ok (.lease l) → ∀ t ∈ e.after :: rest.map Event.after,
        ∀ reservations' items items', Reservations.listed reservations = .ok items →
          Reservations.listed reservations' = .ok items' → items.Perm items' →
            step t (.admitLease ownerId reservations' key) = (.ok (.lease l), t)
  fixpoint : ∀ t ∈ reached s ops, ∀ d ∈ t.domains, d.recomputed = .ok d
  still : ∀ t ∈ reached s ops, Still t

/-! ## One state -/

theorem Sound.fixpoint (hs : s.Sound) : ∀ d ∈ s.domains, d.recomputed = .ok d := fun d hd => by
  rw [DomainRecord.recomputed_eq (hs.within d hd), hs.settled d hd]

theorem Sound.still (hs : s.Sound) : Still s where
  domainSnapshot domainId :=
    (Proc.ends_map (U := fun _ t => t = s)
      ((reads_domainSnapshot hs.toBalanced domainId).mono fun _ _ h => h.1) :)
  snapshots :=
    (Proc.ends_map (U := fun _ t => t = s) ((reads_snapshots hs.toBalanced).mono fun _ _ h => h.1) :)
  denied o r k f h hkind :=
    (good_call hs (.admitLease o r k) (by rintro ⟨_, _, h, -⟩; cases h)).denied f h hkind

theorem Sound.generations (hs : s.Sound) :
    s.leases.Pairwise fun r r' => r.lease.generation < r'.lease.generation := by
  have := hs.increasing
  unfold tokens at this
  rwa [List.pairwise_map] at this

/-- A remembered admission is answered from memory. -/
theorem replay_step (hs : s.Sound) {ownerId key : Arg} {reservations reservations' : Reservations}
    {l : ResourceLease} (h : Remembers s ownerId reservations key l)
    {items items' : List MemoryReservation} (hitems : reservations.listed = .ok items)
    (hitems' : reservations'.listed = .ok items') (hperm : items.Perm items') :
    step s (.admitLease ownerId reservations' key) = (.ok (.lease l), s) := by
  obtain ⟨owner, name, canonical, howner, hname, hcanonical, hreplay, hl⟩ := h
  rw [← canonicalReservations_perm hitems hitems' hperm] at hcanonical
  obtain ⟨r, hr, rfl⟩ := List.mem_map.mp hl
  have hitem : (item r.lease.leaseId (s.lease? r.lease.leaseId) : Except Fault LeaseRecord) = .ok r := by
    rw [lease?_of_mem hs.leaseIds hr]
    rfl
  have hexec : Proc.exec (admitLease ownerId reservations' key) s = (.ok r.lease, s) := by
    unfold admitLease
    rw [Proc.exec_bind_lift howner, Proc.exec_bind_lift hname, Proc.exec_bind_lift hcanonical,
      Proc.exec_bind_get, hreplay]
    dsimp only
    unfold admitReplay
    rw [Proc.exec_bind_lift (a := ()) (by simp [raiseIf]), Proc.exec_bind_get,
      Proc.exec_bind_lift hitem]
    rfl
  refine (Proc.exec_map Reply.lease _ s).trans ?_
  rw [hexec]
  rfl

/-- What is remembered stays so. -/
theorem Remembers.follows {t : Ledger} {ownerId key : Arg} {reservations : Reservations}
    {l : ResourceLease} (h : Remembers s ownerId reservations key l) (ht : Follows s t) :
    Remembers t ownerId reservations key l := by
  obtain ⟨owner, name, canonical, howner, hname, hcanonical, hreplay, hl⟩ := h
  refine ⟨owner, name, canonical, howner, hname, hcanonical, ht.replays _ _ hreplay, ?_⟩
  obtain ⟨r, hr, rfl⟩ := List.mem_map.mp hl
  obtain ⟨i, hi⟩ := List.mem_iff_getElem?.mp hr
  obtain ⟨r', hr', hlease, -⟩ := ht.leases i r hi
  exact List.mem_map.mpr ⟨r', List.mem_of_getElem? hr', hlease⟩

/-! ## The run -/

/-- No call of the run breaks off between its writes. -/
def Unbroken (s : Ledger) (ops : List Op) : Prop :=
  ∀ e ∈ events step s ops, ¬Exhausted e.before e.op

theorem good_of_is {e : Moment} (hs : e.before.Sound) (hlive : ¬Exhausted e.before e.op)
    (his : e.Is step) : Good e.before e.op e.result e.after := by
  have hgood := good_call hs e.op hlive
  rw [show step e.before e.op = (e.result, e.after) from his] at hgood
  exact hgood

theorem good_of_mem (hs : s.Sound) {ops : List Op} (hlive : Unbroken s ops) {e : Moment}
    (he : e ∈ events step s ops) : e.before.Sound ∧ Good e.before e.op e.result e.after := by
  obtain ⟨past, rest, h⟩ := List.append_of_mem he
  obtain ⟨hbefore, hnot, his, -⟩ := events_when (I := fun _ t => t.Sound)
    (fun _ e hnot hb his => (good_of_is hb hnot his).sound) [] hlive hs past e rest h
  exact ⟨hbefore, good_of_is hbefore hnot his⟩

theorem sound_of_reached (hs : s.Sound) {ops : List Op} (hlive : Unbroken s ops) :
    ∀ t ∈ reached s ops, t.Sound := by
  intro t ht
  rcases List.mem_cons.mp ht with rfl | ht
  · exact hs
  · obtain ⟨e, he, rfl⟩ := List.mem_map.mp ht
    exact (good_of_mem hs hlive he).2.sound

theorem follows_of_reached (hs : s.Sound) {ops : List Op} (hlive : Unbroken s ops) :
    (reached s ops).Pairwise Follows :=
  events_chain_when (D := fun e => ¬Exhausted e.before e.op) (I := Sound) (R := Follows)
    (fun _ _ _ => Follows.trans)
    (fun _ hnot hb his => ⟨(good_of_is hb hnot his).follows, (good_of_is hb hnot his).sound⟩) hlive hs

/-- A run from a sound ledger in which no call breaks off. -/
theorem accounts_of_sound (hs : s.Sound) {ops : List Op} (hlive : Unbroken s ops) :
    Accounts s ops where
  sums t ht d hd :=
    ⟨(sound_of_reached hs hlive t ht).accounted d hd, (sound_of_reached hs hlive t ht).within d hd⟩
  subtraction e he := (good_of_mem hs hlive he).2.underflow
  quarantine t ht := (sound_of_reached hs hlive t ht).clear
  leaves e he := (good_of_mem hs hlive he).2.stays
  statuses := (follows_of_reached hs hlive).imp fun h => h.leases
  generations t ht := (sound_of_reached hs hlive t ht).generations
  replays past rest e he ownerId reservations key l hop hresult t ht reservations' items items'
      hitems hitems' hperm := by
    have hmem : e ∈ events step s ops := he ▸ List.mem_append_right past List.mem_cons_self
    have hremembers := (good_of_mem hs hlive hmem).2.remembers _ _ _ _ hop hresult
    have hreached : t ∈ reached s ops := by
      refine List.mem_cons_of_mem s ?_
      rw [he, List.map_append]
      exact List.mem_append_right _ ht
    refine replay_step (sound_of_reached hs hlive t hreached) ?_ hitems hitems' hperm
    rcases List.mem_cons.mp ht with rfl | ht
    · exact hremembers
    · have hchain := follows_of_reached hs hlive
      unfold reached at hchain
      rw [he, List.map_append, List.map_cons, ← List.cons_append] at hchain
      have hlater := (List.pairwise_append.mp hchain).2.1
      exact hremembers.follows ((List.pairwise_cons.mp hlater).1 t ht)
  fixpoint t ht := (sound_of_reached hs hlive t ht).fixpoint
  still t ht := (sound_of_reached hs hlive t ht).still

/-! ## The start -/

section Init

variable {domains : List MemoryDomain} {idFactory : Nat → Option Arg} {initialGeneration : Arg}

/-- `_DomainRecord(domain=domain)`. -/
def fresh (domain : MemoryDomain) : DomainRecord := { domain := domain }

theorem records_eq_ok : ∀ {domains : List MemoryDomain} {acc rs : List DomainRecord},
    records acc domains = .ok rs → (acc.map DomainRecord.id).Nodup →
      rs = acc ++ domains.map fresh ∧ (rs.map DomainRecord.id).Nodup
  | [], acc, rs, h, hacc => by
    cases h
    exact ⟨(List.append_nil acc).symm, hacc⟩
  | domain :: domains, acc, rs, h, hacc => by
    rw [records, bind_eq_ok] at h
    obtain ⟨_, hraise, h⟩ := h
    rw [raiseIf_eq_ok] at hraise
    have hfresh : domain.domainId ∉ acc.map DomainRecord.id := by
      intro hin
      obtain ⟨d, hd, hid⟩ := List.mem_map.mp hin
      rw [List.any_eq_false] at hraise
      exact hraise d hd (by simpa using hid)
    obtain ⟨hrs, hnodup⟩ := records_eq_ok h (by
      rw [List.map_append]
      refine List.Nodup.append hacc (List.nodup_singleton _) ?_
      simpa [DomainRecord.id] using hfresh)
    refine ⟨?_, hnodup⟩
    rw [hrs, List.append_assoc, List.map_cons]
    rfl

/-- What `__init__` leaves. -/
theorem init_eq_ok (h : init domains idFactory initialGeneration = .ok s) :
    ∃ g, g ≤ maxU64 ∧
      s = { domains := domains.map fresh, nextGeneration := some g, idFactory := idFactory } ∧
      (s.domains.map DomainRecord.id).Nodup := by
  unfold init at h
  rw [bind_eq_ok] at h
  obtain ⟨rs, hrs, h⟩ := h
  obtain ⟨hlist, hnodup⟩ := records_eq_ok hrs List.nodup_nil
  rw [bind_eq_ok] at h
  obtain ⟨_, -, h⟩ := h
  rw [bind_eq_ok] at h
  obtain ⟨g, hg, h⟩ := h
  rw [bind_eq_ok] at h
  obtain ⟨_, -, h⟩ := h
  cases h
  exact ⟨g, checkedU64_le hg, by rw [hlist, List.nil_append], hnodup⟩

/-- A fresh record is settled: the reserve alone is below the enter watermark. -/
theorem recompute_fresh (domain : MemoryDomain) : (fresh domain).recompute = fresh domain := by
  have henter := domain.enter.1
  have hpressed : (fresh domain).underPressure
      ((fresh domain).load ((fresh domain).domain.reservedBytes + (fresh domain).allocatedBytes)) =
      false := by
    simp [DomainRecord.underPressure, DomainRecord.load, fresh, henter]
  have hstate : (fresh domain).state ≠ .quarantined := by simp [fresh]
  unfold DomainRecord.recompute
  rw [if_neg hstate, hpressed]
  rfl

theorem sound_init (h : init domains idFactory initialGeneration = .ok s)
    (hmarks : ∀ d ∈ domains, d.pressureExitBytes < d.pressureEnterBytes) : s.Sound := by
  obtain ⟨g, hg, rfl, hids⟩ := init_eq_ok h
  exact
    { ids := hids
      watermarks := List.forall_mem_map.mpr hmarks
      settled := List.forall_mem_map.mpr fun d _ => recompute_fresh d
      within := List.forall_mem_map.mpr fun d _ => Nat.zero_le _
      accounted := List.forall_mem_map.mpr fun d _ => rfl
      leaseIds := List.nodup_nil
      placed := fun l hl => absurd hl List.not_mem_nil
      increasing := .nil
      next := fun g' hg' => ⟨Option.some.inj hg' ▸ hg, fun l hl => absurd hl List.not_mem_nil⟩
      replays := fun key entry he => by cases he
      clear := fun r hr => absurd hr List.not_mem_nil }

/-! ## Equal watermarks -/

/-- An observation of a load exactly at the enter watermark. -/
def atWatermark (domain : MemoryDomain) : TelemetrySample where
  domainId := domain.domainId
  sequence := 1
  usedBytes := domain.pressureEnterBytes
  totalBytes := domain.budgetBytes
  deviceError := false
  named := domain.named
  sequenced := by decide
  measured := ⟨by have := domain.reserved; omega, domain.budget, domain.enter.2⟩

theorem load_atWatermark (domain : MemoryDomain) : (sampled (atWatermark domain) (fresh domain)).load
    (domain.reservedBytes + 0) = domain.pressureEnterBytes := by
  have := domain.enter.1
  simp only [DomainRecord.load, sampled, atWatermark]
  omega

/-- The domain enters pressure, and the next recomputation takes it out again. -/
theorem flips_atWatermark {domain : MemoryDomain}
    (h : ¬domain.pressureExitBytes < domain.pressureEnterBytes) :
    (sampled (atWatermark domain) (fresh domain)).recompute.recompute ≠
      (sampled (atWatermark domain) (fresh domain)).recompute := by
  have hfirst : (sampled (atWatermark domain) (fresh domain)).recompute =
      (sampled (atWatermark domain) (fresh domain)).judged true := by
    unfold DomainRecord.recompute
    rw [if_neg (by simp [sampled, fresh])]
    congr 1
    have hload := load_atWatermark domain
    simp only [DomainRecord.underPressure]
    rw [if_neg (by simp [sampled, fresh])]
    simp only [decide_eq_true_eq]
    exact ge_of_eq hload
  have hexit := domain.exit.2
  have hload := load_atWatermark domain
  rw [hfirst]
  intro hsecond
  have hstate := congrArg DomainRecord.state hsecond
  unfold DomainRecord.recompute at hstate
  rw [if_neg DomainRecord.judged_not_quarantined, DomainRecord.judged_judged,
    DomainRecord.judged_state, DomainRecord.judged_state] at hstate
  simp only [if_true] at hstate
  split at hstate
  · rename_i hpressed
    simp only [DomainRecord.underPressure, DomainRecord.judged_state, if_true,
      DomainRecord.judged_domain, DomainRecord.judged_allocatedBytes, decide_eq_true_eq] at hpressed
    have hsame : (DomainRecord.judged (sampled (atWatermark domain) (fresh domain)) true).load
        (domain.reservedBytes + 0) = domain.pressureEnterBytes := hload
    have hover : domain.pressureExitBytes < domain.pressureEnterBytes := hsame ▸ hpressed
    omega
  · cases hstate

theorem ends_atWatermark (hids : (s.domains.map DomainRecord.id).Nodup) {domain : MemoryDomain}
    (hd : fresh domain ∈ s.domains) :
    Proc.Ends (updateTelemetry (some (atWatermark domain))) s fun _ t =>
      (sampled (atWatermark domain) (fresh domain)).recompute ∈ t.domains := by
  have hfound : s.domain? (atWatermark domain).domainId = some (fresh domain) :=
    domain?_of_mem hids hd
  have hread : (found (unknownDomain (atWatermark domain).domainId)
      (s.domain? (atWatermark domain).domainId) : Except Fault DomainRecord) = .ok (fresh domain) := by
    rw [hfound]
    rfl
  unfold updateTelemetry
  refine Proc.ends_bind_lift_ok (a := atWatermark domain) rfl (Proc.ends_bind_get ?_)
  refine Proc.ends_bind_lift_ok hread (Proc.ends_bind_lift_ok (a := ()) rfl ?_)
  rw [if_neg (by simp [fresh])]
  refine Proc.ends_bind_modify ?_
  unfold assess
  rw [if_neg (by simp [atWatermark, fresh]), if_neg (by simp [atWatermark])]
  rw [bind_assoc]
  refine Proc.ends_bind_ok (exec_recompute_write (f := sampled (atWatermark domain)) (fun _ => rfl)
    (fun _ => rfl) hids (Nat.zero_le _) hfound) ?_
  refine Proc.ends_bind_ok (a := ()) rfl ((reads_snapshotOf _).mono ?_)
  rintro r t ⟨rfl, -⟩
  exact List.mem_map.mpr ⟨fresh domain, hd, if_pos rfl⟩

/-- **The ledger keeps its accounts exactly when every domain's exit watermark is below its enter
watermark.** -/
theorem ledger_accounts_iff (h : init domains idFactory initialGeneration = .ok s) :
    (∀ ops, Unbroken s ops → Accounts s ops) ↔
      ∀ domain ∈ domains, domain.pressureExitBytes < domain.pressureEnterBytes := by
  constructor
  · intro hall domain hdomain
    by_contra hmarks
    obtain ⟨g, -, hs, hids⟩ := init_eq_ok h
    have hd : fresh domain ∈ s.domains := by
      rw [hs]
      exact List.mem_map_of_mem hdomain
    have haccounts := hall [.updateTelemetry (some (atWatermark domain))] fun e he => ?_
    · have hstep : (sampled (atWatermark domain) (fresh domain)).recompute ∈
          (step s (.updateTelemetry (some (atWatermark domain)))).2.domains :=
        (Proc.ends_map (g := Reply.snapshot) (U := fun _ (t : Ledger) =>
          (sampled (atWatermark domain) (fresh domain)).recompute ∈ t.domains)
          (ends_atWatermark hids hd) :)
      have hfix := haccounts.fixpoint _ (List.mem_cons_of_mem s List.mem_cons_self) _ hstep
      rw [DomainRecord.recomputed_eq (by
        unfold DomainRecord.Within
        rw [DomainRecord.recompute_allocatedBytes]
        exact Nat.zero_le _)] at hfix
      exact flips_atWatermark hmarks (Except.ok.inj hfix)
    · rcases List.mem_cons.mp he with rfl | he
      · rintro ⟨sample, d, hop, hfound, -, -, hcause, -⟩
        cases hop
        rw [show s.domain? (atWatermark domain).domainId = some (fresh domain) from
          domain?_of_mem hids hd] at hfound
        cases hfound
        rcases hcause with hcapacity | hdevice
        · exact absurd hcapacity (Nat.lt_irrefl _)
        · cases hdevice
      · cases he
  · intro hmarks ops hlive
    exact accounts_of_sound (sound_init h hmarks) hlive

end Init

/-- One domain of 100 bytes whose watermarks are the default ones. -/
def defaultDomain : MemoryDomain :=
  ⟨"gpu", 100, 0, 100, 100, by decide, by decide, by decide, by decide, by decide⟩

/-- The same domain with an exit watermark below. -/
def hystereticDomain : MemoryDomain :=
  ⟨"gpu", 100, 0, 90, 80, by decide, by decide, by decide, by decide, by decide⟩

/-- A ledger of one domain. -/
def single (domain : MemoryDomain) : Ledger :=
  { domains := [fresh domain], nextGeneration := some 1, idFactory := fun _ => some (.text "lease") }

theorem ledger_accounts_iff_gpu :
    init [hystereticDomain] (fun _ => some (.text "lease")) (.int 1) = .ok (single hystereticDomain) ∧
      ((∀ ops, Unbroken (single hystereticDomain) ops → Accounts (single hystereticDomain) ops) ↔
        ∀ domain ∈ [hystereticDomain], domain.pressureExitBytes < domain.pressureEnterBytes) :=
  have hinit : init [hystereticDomain] (fun _ => some (.text "lease")) (.int 1) =
      .ok (single hystereticDomain) := rfl
  ⟨hinit, ledger_accounts_iff hinit⟩

/-- The domain's 100 bytes, all of them. -/
def wholeDomain : MemoryReservation := ⟨"gpu", 100, by decide, by decide, by decide⟩

/-- A request for the whole domain. -/
def askAll (key : String) : Op :=
  .admitLease (.text "owner") (.items [some wholeDomain]) (.text key)

/-- With the default watermarks, a snapshot and a denied admission change the state of a full
domain. -/
theorem full_domain_flips :
    init [defaultDomain] (fun _ => some (.text "lease")) (.int 1) = .ok (single defaultDomain) ∧
    ((step (single defaultDomain) (askAll "key")).2.domains.map DomainRecord.state = [.pressure] ∧
      (step (step (single defaultDomain) (askAll "key")).2
        (.domainSnapshot (.text "gpu"))).2.domains.map DomainRecord.state = [.healthy] ∧
      (step (step (single defaultDomain) (askAll "key")).2 (askAll "other")).1 =
        .error (denied "reservation exceeds the memory domain budget" "gpu") ∧
      (step (step (single defaultDomain) (askAll "key")).2
        (askAll "other")).2.domains.map DomainRecord.state = [.healthy]) ∧
    ¬Accounts (single defaultDomain) [askAll "key"] := by
  have hfull : (step (single defaultDomain) (askAll "key")).2.domains.map DomainRecord.state =
      [.pressure] := by decide +kernel
  have hflip : (step (step (single defaultDomain) (askAll "key")).2
      (.domainSnapshot (.text "gpu"))).2.domains.map DomainRecord.state = [.healthy] := by
    decide +kernel
  refine ⟨rfl, ⟨hfull, hflip, ?_, ?_⟩, fun haccounts => ?_⟩
  · decide +kernel
  · decide +kernel
  · have hstill := haccounts.still _ (List.mem_cons_of_mem _ List.mem_cons_self)
    have hsame := hstill.domainSnapshot (.text "gpu")
    rw [hsame] at hflip
    exact absurd (hfull.symm.trans hflip) (by decide)

end LumaOS.Memory.Ledger
