import LumaOS.Memory.Ledger
import Mathlib.Algebra.GroupWithZero.Nat

/-!
# What the ledger's methods do in a balanced state

A state is `Coherent` when every domain's allocated bytes are those of its reservations in active
leases, within what the domain can allocate. No check inside a write loop can fail then, so each
internal method has a closed form: `terminalize` takes the lease's bytes off its domains
(`exec_closed`), and a new admission puts them on (`exec_opened`).

A state is `Balanced` when besides every domain's state is what a recomputation would write. Then
all domains follow one rule (`exec_terminalize`, `exec_admitted`), and a recomputation alone changes
nothing (`exec_recompute`).
-/

namespace LumaOS.Memory

open LumaOS.Base

/-- What the lease holds in the domain now. -/
def LeaseRecord.heldBytes (r : LeaseRecord) (domainId : String) : Nat :=
  if r.status = .active then r.lease.bytesFor domainId else 0

/-- The bytes of the domain's reservations in active leases. -/
def Ledger.activeBytes (s : Ledger) (domainId : String) : Nat :=
  (s.leases.map fun r => r.heldBytes domainId).sum

/-- The leases ever admitted, in the order of their admission. -/
def Ledger.tokens (s : Ledger) : List ResourceLease := s.leases.map LeaseRecord.lease

/-- The reservations are in different domains, all of them known. -/
structure ResourceLease.Placed (s : Ledger) (l : ResourceLease) : Prop where
  unique : (l.reservations.map (·.domainId)).Nodup
  known : ∀ x ∈ l.reservations, x.domainId ∈ s.domains.map DomainRecord.id

/-- Everything but the rule about quarantined domains, which a quarantine breaks while it revokes. -/
structure Ledger.Balanced (s : Ledger) : Prop where
  ids : (s.domains.map DomainRecord.id).Nodup
  watermarks : ∀ d ∈ s.domains, d.domain.pressureExitBytes < d.domain.pressureEnterBytes
  settled : ∀ d ∈ s.domains, d.recompute = d
  within : ∀ d ∈ s.domains, d.Within
  accounted : ∀ d ∈ s.domains, d.allocatedBytes = s.activeBytes d.id
  leaseIds : (s.tokens.map ResourceLease.leaseId).Nodup
  placed : ∀ l ∈ s.tokens, l.Placed s
  increasing : s.tokens.Pairwise fun l l' => l.generation < l'.generation
  next : ∀ g, s.nextGeneration = some g → g ≤ maxU64 ∧ ∀ l ∈ s.tokens, l.generation < g
  replays : ∀ key entry, s.replay? key = some entry → ∃ l ∈ s.tokens,
    l.leaseId = entry.2 ∧ l.reservations = entry.1 ∧ (l.ownerId, l.idempotencyKey) = key

/-- The accounts are right, whatever the states of the domains are. -/
structure Ledger.Coherent (s : Ledger) : Prop where
  ids : (s.domains.map DomainRecord.id).Nodup
  within : ∀ d ∈ s.domains, d.Within
  accounted : ∀ d ∈ s.domains, d.allocatedBytes = s.activeBytes d.id
  leaseIds : (s.tokens.map ResourceLease.leaseId).Nodup
  placed : ∀ l ∈ s.tokens, l.Placed s

theorem Ledger.Balanced.coherent {s : Ledger} (h : s.Balanced) : s.Coherent :=
  ⟨h.ids, h.within, h.accounted, h.leaseIds, h.placed⟩

/-! ## Lookups -/

section Lookup

variable {s : Ledger} {d : DomainRecord} {r : LeaseRecord} {domainId leaseId : String}

theorem find?_eq_of_nodup {α : Type} {key : α → String} {l : List α} {a : α}
    (h : (l.map key).Nodup) (ha : a ∈ l) : l.find? (fun x => key x == key a) = some a := by
  induction l with
  | nil => cases ha
  | cons x l ih =>
    obtain ⟨hx, hl⟩ := List.nodup_cons.mp h
    rcases List.mem_cons.mp ha with rfl | ha
    · simp
    · have hne : key x ≠ key a := fun he => hx (he ▸ List.mem_map_of_mem ha)
      rw [List.find?_cons_of_neg (by simpa using hne)]
      exact ih hl ha

theorem Ledger.domain?_eq_some (h : s.domain? domainId = some d) : d ∈ s.domains ∧ d.id = domainId :=
  ⟨List.mem_of_find?_eq_some h, by simpa using List.find?_some h⟩

theorem Ledger.domain?_of_mem (h : (s.domains.map DomainRecord.id).Nodup) (hd : d ∈ s.domains) :
    s.domain? d.id = some d :=
  find?_eq_of_nodup h hd

theorem Ledger.exists_domain? (h : domainId ∈ s.domains.map DomainRecord.id) :
    ∃ d, s.domain? domainId = some d := by
  obtain ⟨d, hd, rfl⟩ := List.mem_map.mp h
  have hsome : (s.domains.find? fun e => e.id == d.id).isSome :=
    List.find?_isSome.mpr ⟨d, hd, by simp⟩
  exact Option.isSome_iff_exists.mp hsome

theorem Ledger.lease?_eq_some (h : s.lease? leaseId = some r) :
    r ∈ s.leases ∧ r.lease.leaseId = leaseId :=
  ⟨List.mem_of_find?_eq_some h, by simpa using List.find?_some h⟩

theorem Ledger.map_leaseId : s.tokens.map ResourceLease.leaseId =
    s.leases.map fun r => r.lease.leaseId := by
  simp [tokens, Function.comp_def]

theorem Ledger.lease?_of_mem (h : (s.tokens.map ResourceLease.leaseId).Nodup)
    (hr : r ∈ s.leases) : s.lease? r.lease.leaseId = some r := by
  rw [map_leaseId] at h
  exact find?_eq_of_nodup h hr

end Lookup

section Bytes

variable {l : ResourceLease} {domainId : String}

theorem ResourceLease.bytesFor_of_mem (h : (l.reservations.map (·.domainId)).Nodup)
    {x : MemoryReservation} (hx : x ∈ l.reservations) : l.bytesFor x.domainId = x.bytes := by
  unfold bytesFor
  rw [find?_eq_of_nodup h hx]

theorem ResourceLease.bytesFor_eq_zero (h : domainId ∉ l.reservations.map (·.domainId)) :
    l.bytesFor domainId = 0 := by
  have hnone : l.reservations.find? (fun r => r.domainId == domainId) = none :=
    List.find?_eq_none.mpr fun r hr he =>
      h (List.mem_map.mpr ⟨r, hr, by simpa using he⟩)
  unfold bytesFor
  rw [hnone]

theorem ResourceLease.touches_iff : l.touches domainId = true ↔
    domainId ∈ l.reservations.map (·.domainId) := by
  simp [touches]

end Bytes

/-! ## Recomputing and reallocating -/

namespace DomainRecord

/-- The record with other allocated bytes, judged again. -/
def reallocated (value : DomainRecord → Nat) (d : DomainRecord) : DomainRecord :=
  recompute { d with allocatedBytes := value d }

variable {value : DomainRecord → Nat} {d : DomainRecord}

@[simp] theorem reallocated_domain : (d.reallocated value).domain = d.domain := by
  simp [reallocated]

@[simp] theorem reallocated_id : (d.reallocated value).id = d.id := by
  simp [reallocated, DomainRecord.id]

@[simp] theorem reallocated_allocatedBytes : (d.reallocated value).allocatedBytes = value d := by
  simp [reallocated]

theorem reallocated_quarantined :
    (d.reallocated value).state = .quarantined ↔ d.state = .quarantined := by
  simp [reallocated, recompute_quarantined]

theorem reallocated_self (h : d.recompute = d) (hv : value d = d.allocatedBytes) :
    d.reallocated value = d := by
  unfold reallocated
  rw [hv]
  exact h

theorem recompute_id : d.recompute.id = d.id := by simp [DomainRecord.id]

end DomainRecord

namespace Ledger

variable {s : Ledger} {d : DomainRecord}

theorem exec_recompute_within (hids : (s.domains.map DomainRecord.id).Nodup) (hd : d ∈ s.domains)
    (hwithin : d.Within) : Proc.exec (recompute d.id) s =
      (.ok d.recompute, s.writeDomain d.id DomainRecord.recompute) := by
  have hwrite : s.writeDomain d.id (fun _ => d.recompute) =
      s.writeDomain d.id DomainRecord.recompute := by
    unfold writeDomain
    have hmap : (s.domains.map fun e => if e.id = d.id then d.recompute else e) =
        s.domains.map fun e => if e.id = d.id then e.recompute else e := by
      refine List.map_congr_left fun e he => ?_
      by_cases hid : e.id = d.id
      · rw [if_pos hid, if_pos hid, List.inj_on_of_nodup_map hids he hd hid]
      · rw [if_neg hid, if_neg hid]
    rw [hmap]
  have hread : (item d.id (s.domain? d.id) : Except Fault DomainRecord) = .ok d := by
    rw [domain?_of_mem hids hd]
    rfl
  unfold recompute
  rw [Proc.exec_bind_get, Proc.exec_bind_lift hread,
    Proc.exec_bind_lift (DomainRecord.recomputed_eq hwithin), Proc.exec_bind_modify, hwrite]
  rfl

/-- In a settled state a recomputation reads. -/
theorem exec_recompute (h : s.Balanced) {domainId : String} (hd : s.domain? domainId = some d) :
    Proc.exec (recompute domainId) s = (.ok d, s) := by
  obtain ⟨hmem, rfl⟩ := domain?_eq_some hd
  have hmap : (s.domains.map fun e => if e.id = d.id then e.recompute else e) = s.domains := by
    conv_rhs => rw [← List.map_id s.domains]
    refine List.map_congr_left fun e he => ?_
    simp [h.settled e he]
  rw [exec_recompute_within h.ids hmem (h.within d hmem), h.settled d hmem]
  unfold writeDomain
  rw [hmap]

/-! ### Writes to several domains -/

/-- The write of one of the entries, if there is one for the record. -/
def written {β : Type} (f : String × β → DomainRecord → DomainRecord) (vs : List (String × β))
    (d : DomainRecord) : DomainRecord :=
  (vs.find? fun v => v.1 == d.id).elim d fun v => f v d

theorem writeDomains_eq {β : Type} {f : String × β → DomainRecord → DomainRecord}
    (hid : ∀ v d, (f v d).id = d.id) : ∀ {vs : List (String × β)} {s : Ledger},
      (vs.map Prod.fst).Nodup → vs.foldl (fun s v => s.writeDomain v.1 (f v)) s =
        { s with domains := s.domains.map (written f vs) }
  | [], s, _ => by
    have hmap : s.domains.map (written f []) = s.domains := List.map_id s.domains
    rw [hmap]
    rfl
  | v :: vs, s, h => by
    obtain ⟨hv, hvs⟩ := List.nodup_cons.mp h
    rw [List.foldl_cons, writeDomains_eq hid hvs]
    unfold writeDomain
    rw [List.map_map]
    have hmap : s.domains.map (written f vs ∘ fun d => if d.id = v.1 then f v d else d) =
        s.domains.map (written f (v :: vs)) := by
      refine List.map_congr_left fun d _ => ?_
      unfold written
      by_cases hd : d.id = v.1
      · have hnone : vs.find? (fun w => w.1 == d.id) = none :=
          List.find?_eq_none.mpr fun w hw he => hv (by
            rw [← hd, ← beq_iff_eq.mp he]
            exact List.mem_map_of_mem hw)
        simp [hd, hid, hd ▸ hnone]
      · simp [hd, Ne.symm hd]
    rw [hmap]

/-- `allocated_bytes = value` on one record. -/
def setAllocated (v : String × Nat) (d : DomainRecord) : DomainRecord :=
  { d with allocatedBytes := v.2 }

theorem writeAllocated_eq {vs : List (String × Nat)} (h : (vs.map Prod.fst).Nodup) :
    s.writeAllocated vs = { s with domains := s.domains.map (written setAllocated vs) } :=
  writeDomains_eq (f := setAllocated) (fun _ _ => rfl) h

/-- The loop that recomputes the listed domains. -/
theorem exec_recomputeAll {vs : List (String × Nat)} (hids : (s.domains.map DomainRecord.id).Nodup)
    (hwithin : ∀ d ∈ s.domains, d.Within) (hvs : (vs.map Prod.fst).Nodup)
    (hknown : ∀ v ∈ vs, v.1 ∈ s.domains.map DomainRecord.id) :
    Proc.exec (vs.forM fun v => do let _ ← recompute v.1) s =
      (.ok .unit, { s with domains := s.domains.map (written (fun _ => DomainRecord.recompute) vs) })
    := by
  rw [← writeDomains_eq (fun _ _ => DomainRecord.recompute_id) hvs]
  refine Proc.exec_forM (I := fun t rest => (t.domains.map DomainRecord.id).Nodup ∧
    (∀ d ∈ t.domains, d.Within) ∧ ∀ v ∈ rest, v.1 ∈ t.domains.map DomainRecord.id) ?_
    ⟨hids, hwithin, hknown⟩
  rintro t v rest ⟨hids, hwithin, hknown⟩
  obtain ⟨d, hd, hv⟩ := List.mem_map.mp (hknown v List.mem_cons_self)
  have hkeys : (t.writeDomain v.1 DomainRecord.recompute).domains.map DomainRecord.id =
      t.domains.map DomainRecord.id := by
    unfold writeDomain
    rw [List.map_map]
    refine List.map_congr_left fun e _ => ?_
    rw [Function.comp_apply]
    split
    · exact DomainRecord.recompute_id
    · rfl
  refine ⟨?_, by rwa [hkeys], fun e he => ?_, fun w hw => ?_⟩
  · rw [← hv, Proc.exec_bind_of_ok (exec_recompute_within hids hd (hwithin d hd))]
    rfl
  · obtain ⟨e₀, he₀, rfl⟩ := List.mem_map.mp he
    have := hwithin e₀ he₀
    split
    · simpa [DomainRecord.Within] using this
    · exact this
  · rw [hkeys]
    exact hknown w (List.mem_cons_of_mem v hw)

/-! ### The bytes of one lease -/

/-- `self._domains[domain_id].allocated_bytes`. -/
def allocatedIn (s : Ledger) (domainId : String) : Nat :=
  (s.domain? domainId).elim 0 DomainRecord.allocatedBytes

/-- `prospective` of `admit` and `new_values` of `_terminalize_locked`. -/
def allocations (s : Ledger) (new : Nat → Nat → Nat) (l : ResourceLease) : List (String × Nat) :=
  l.reservations.map fun x => (x.domainId, new (s.allocatedIn x.domainId) x.bytes)

/-- The domain after the bytes of the lease were put on or taken off. -/
def adjusted (new : Nat → Nat → Nat) (l : ResourceLease) : DomainRecord → DomainRecord :=
  DomainRecord.reallocated fun d => new d.allocatedBytes (l.bytesFor d.id)

/-- The same where the lease has a reservation; the other domains are not recomputed. -/
def shifted (new : Nat → Nat → Nat) (l : ResourceLease) (d : DomainRecord) : DomainRecord :=
  if l.touches d.id then adjusted new l d else d

variable {l : ResourceLease} {new : Nat → Nat → Nat}

theorem fst_allocations : (s.allocations new l).map Prod.fst = l.reservations.map (·.domainId) := by
  simp [allocations, Function.comp_def]

theorem find?_allocations {domainId : String} (h : l.touches domainId = true) :
    ∃ v, (s.allocations new l).find? (fun v => v.1 == domainId) = some v := by
  rw [ResourceLease.touches_iff, ← (@fst_allocations s _ new)] at h
  obtain ⟨v, hv, hid⟩ := List.mem_map.mp h
  exact Option.isSome_iff_exists.mp (List.find?_isSome.mpr ⟨v, hv, beq_iff_eq.mpr hid⟩)

theorem find?_allocations_eq_none {domainId : String} (h : ¬l.touches domainId = true) :
    (s.allocations new l).find? (fun v => v.1 == domainId) = none := by
  rw [ResourceLease.touches_iff, ← (@fst_allocations s _ new)] at h
  exact List.find?_eq_none.mpr fun v hv he => h (beq_iff_eq.mp he ▸ List.mem_map_of_mem hv)

theorem allocatedIn_eq (hids : (s.domains.map DomainRecord.id).Nodup) (hd : d ∈ s.domains) :
    s.allocatedIn d.id = d.allocatedBytes := by
  unfold allocatedIn
  rw [domain?_of_mem hids hd]
  rfl

/-- The write loop gives every domain its new value; without a reservation there, it is the old
one. -/
theorem written_setAllocated (h : s.Coherent) (hl : l.Placed s) (hnew : ∀ a, new a 0 = a)
    (hd : d ∈ s.domains) : written setAllocated (s.allocations new l) d =
      { d with allocatedBytes := new d.allocatedBytes (l.bytesFor d.id) } := by
  unfold written
  by_cases hin : d.id ∈ l.reservations.map (·.domainId)
  · obtain ⟨x, hx, hxd⟩ := List.mem_map.mp hin
    have hmem : (d.id, new d.allocatedBytes x.bytes) ∈ s.allocations new l := by
      refine List.mem_map.mpr ⟨x, hx, ?_⟩
      rw [hxd, allocatedIn_eq h.ids hd]
    have hkeys : ((s.allocations new l).map Prod.fst).Nodup := by
      rw [fst_allocations]
      exact hl.unique
    rw [find?_eq_of_nodup hkeys hmem, Option.elim_some, ← hxd,
      ResourceLease.bytesFor_of_mem hl.unique hx]
    rfl
  · have hfind : (s.allocations new l).find? (fun v => v.1 == d.id) = none :=
      find?_allocations_eq_none fun h => hin (ResourceLease.touches_iff.mp h)
    rw [hfind, Option.elim_none, ResourceLease.bytesFor_eq_zero hin, hnew]

@[simp] theorem shifted_domain : (shifted new l d).domain = d.domain := by
  unfold shifted adjusted
  split
  · exact DomainRecord.reallocated_domain
  · rfl

theorem shifted_id : (shifted new l d).id = d.id := congrArg MemoryDomain.domainId shifted_domain

theorem shifted_allocatedBytes (hnew : ∀ a, new a 0 = a) :
    (shifted new l d).allocatedBytes = new d.allocatedBytes (l.bytesFor d.id) := by
  unfold shifted adjusted
  split
  · exact DomainRecord.reallocated_allocatedBytes
  · rename_i hout
    rw [ResourceLease.touches_iff] at hout
    rw [ResourceLease.bytesFor_eq_zero hout, hnew]

/-- A settled domain without a reservation is as it would be recomputed. -/
theorem shifted_eq (h : d.recompute = d) (hnew : ∀ a, new a 0 = a) :
    shifted new l d = adjusted new l d := by
  unfold shifted
  split
  · rfl
  · rename_i hout
    rw [ResourceLease.touches_iff] at hout
    exact (DomainRecord.reallocated_self h (by rw [ResourceLease.bytesFor_eq_zero hout, hnew])).symm

theorem map_shifted (h : s.Balanced) (hnew : ∀ a, new a 0 = a) :
    s.domains.map (shifted new l) = s.domains.map (adjusted new l) :=
  List.map_congr_left fun d hd => shifted_eq (h.settled d hd) hnew

/-- **The write loop and the recomputation loop after it**, whatever is written elsewhere between
them. -/
theorem exec_shifted (h : s.Coherent) (hl : l.Placed s) (hnew : ∀ a, new a 0 = a)
    (hfits : ∀ d ∈ s.domains, new d.allocatedBytes (l.bytesFor d.id) ≤ d.domain.allocatableBytes)
    {t : Ledger} (ht : t.domains = (s.writeAllocated (s.allocations new l)).domains) :
    Proc.exec ((s.allocations new l).forM fun v => do let _ ← recompute v.1) t =
      (.ok .unit, { t with domains := s.domains.map (shifted new l) }) := by
  have hkeys : ((s.allocations new l).map Prod.fst).Nodup := by
    rw [fst_allocations]
    exact hl.unique
  have hwritten : t.domains = s.domains.map fun d =>
      { d with allocatedBytes := new d.allocatedBytes (l.bytesFor d.id) } := by
    rw [ht, writeAllocated_eq hkeys]
    exact List.map_congr_left fun d hd => written_setAllocated h hl hnew hd
  have hids : t.domains.map DomainRecord.id = s.domains.map DomainRecord.id := by
    rw [hwritten, List.map_map]
    rfl
  rw [exec_recomputeAll (by rw [hids]; exact h.ids) ?_ hkeys fun v hv => ?_]
  · have hmap : t.domains.map (written (fun _ => DomainRecord.recompute) (s.allocations new l)) =
        s.domains.map (shifted new l) := by
      rw [hwritten, List.map_map]
      refine List.map_congr_left fun d hd => ?_
      have hid : DomainRecord.id { d with
          allocatedBytes := new d.allocatedBytes (l.bytesFor d.id) } = d.id := rfl
      rw [Function.comp_apply]
      unfold written shifted
      rw [hid]
      by_cases hin : l.touches d.id = true
      · obtain ⟨v, hv⟩ := (@find?_allocations s _ new) hin
        rw [hv, if_pos hin]
        rfl
      · have hzero : l.bytesFor d.id = 0 :=
          ResourceLease.bytesFor_eq_zero fun hmem => hin (ResourceLease.touches_iff.mpr hmem)
        rw [find?_allocations_eq_none hin, if_neg hin, hzero, hnew]
        rfl
    rw [hmap]
  · intro e he
    rw [hwritten] at he
    obtain ⟨d, hd, rfl⟩ := List.mem_map.mp he
    exact hfits d hd
  · have hv' : v.1 ∈ (s.allocations new l).map Prod.fst := List.mem_map_of_mem hv
    rw [fst_allocations] at hv'
    obtain ⟨x, hx, hxv⟩ := List.mem_map.mp hv'
    rw [hids]
    exact hxv ▸ hl.known x hx

/-! ## Terminating a lease -/

/-- The record of a lease that ended. -/
def ended (status : LeaseStatus) (reason : String) (r : LeaseRecord) : LeaseRecord :=
  { r with status, terminalReason := some reason }

/-- The ledger after the lease ended. -/
def closed (l : ResourceLease) (status : LeaseStatus) (reason : String) (s : Ledger) : Ledger :=
  { s with
    domains := s.domains.map (shifted (· - ·) l)
    leases := s.leases.map fun r => if r.lease.leaseId = l.leaseId then ended status reason r else r }

/-- The same in a balanced state. -/
def terminated (l : ResourceLease) (status : LeaseStatus) (reason : String) (s : Ledger) : Ledger :=
  { s with
    domains := s.domains.map (adjusted (· - ·) l)
    leases := s.leases.map fun r => if r.lease.leaseId = l.leaseId then ended status reason r else r }

variable {r : LeaseRecord} {status : LeaseStatus} {reason : String}

/-- Ending a lease takes its bytes off the sum. -/
theorem sum_ended (reason : String) (hstatus : status ≠ .active) (hactive : r.status = .active) (domainId : String) :
    ∀ {rs : List LeaseRecord}, (rs.map fun r => r.lease.leaseId).Nodup → r ∈ rs →
      (rs.map fun x => (if x.lease.leaseId = r.lease.leaseId then ended status reason x
        else x).heldBytes domainId).sum + r.lease.bytesFor domainId =
      (rs.map fun x => x.heldBytes domainId).sum
  | [], _, hr => absurd hr List.not_mem_nil
  | x :: rs, hids, hr => by
    obtain ⟨hx, hrs⟩ := List.nodup_cons.mp hids
    rw [List.map_cons, List.map_cons, List.sum_cons, List.sum_cons]
    rcases List.mem_cons.mp hr with rfl | hr
    · have hrest : (rs.map fun x => (if x.lease.leaseId = r.lease.leaseId then ended status reason x
          else x).heldBytes domainId) = rs.map fun x => x.heldBytes domainId := by
        refine List.map_congr_left fun y hy => ?_
        have hne : y.lease.leaseId ≠ r.lease.leaseId := fun he =>
          hx (List.mem_map.mpr ⟨y, hy, he⟩)
        rw [if_neg hne]
      rw [hrest, if_pos rfl]
      simp [LeaseRecord.heldBytes, ended, hstatus, hactive, Nat.add_comm]
    · have hne : x.lease.leaseId ≠ r.lease.leaseId := fun he =>
        hx (List.mem_map.mpr ⟨r, hr, he.symm⟩)
      rw [if_neg hne, Nat.add_assoc, sum_ended reason hstatus hactive domainId hrs hr]

theorem bytesFor_le (h : s.Coherent) (hr : r ∈ s.leases) (hactive : r.status = .active)
    (domainId : String) : r.lease.bytesFor domainId ≤ s.activeBytes domainId := by
  have hsum := sum_ended "" (show LeaseStatus.released ≠ .active by decide) hactive domainId (map_leaseId ▸ h.leaseIds) hr
  unfold activeBytes
  omega

theorem exec_closed (h : s.Coherent) (hr : r ∈ s.leases) (hactive : r.status = .active) :
    Proc.exec (terminalize r.lease.leaseId status reason) s =
      (.ok .unit, s.closed r.lease status reason) := by
  have hl := h.placed r.lease (List.mem_map_of_mem hr)
  have hle : ∀ d ∈ s.domains, r.lease.bytesFor d.id ≤ d.allocatedBytes := fun d hd => by
    rw [h.accounted d hd]
    exact bytesFor_le h hr hactive d.id
  have hread : (item r.lease.leaseId (s.lease? r.lease.leaseId) : Except Fault LeaseRecord) =
      .ok r := by
    rw [lease?_of_mem h.leaseIds hr]
    rfl
  have hcheck : raiseIf (r.status != .active) inactive = .ok () := by
    simp [raiseIf, hactive]
  have hvalues : Proc.exec (r.lease.reservations.mapM newValue) s =
      (.ok (s.allocations (· - ·) r.lease), s) := by
    refine Proc.exec_mapM fun x hx => ?_
    obtain ⟨d, hd⟩ := exists_domain? (hl.known x hx)
    obtain ⟨hmem, hid⟩ := domain?_eq_some hd
    have hbytes : x.bytes ≤ d.allocatedBytes := by
      have := hle d hmem
      rwa [hid, ResourceLease.bytesFor_of_mem hl.unique hx] at this
    have hsub : checkedSubBytes d.allocatedBytes x.bytes = .ok (d.allocatedBytes - x.bytes) := by
      have := (h.within d hmem).le
      exact checkedSubBytes_ok hbytes (by omega)
    have hitem : (item x.domainId (s.domain? x.domainId) : Except Fault DomainRecord) = .ok d := by
      rw [hd]
      rfl
    unfold newValue allocatedIn
    rw [Proc.exec_bind_get, Proc.exec_bind_lift hitem, Proc.exec_bind_lift hsub, hd]
    rfl
  unfold terminalize
  rw [Proc.exec_bind_get, Proc.exec_bind_lift hread, Proc.exec_bind_lift hcheck,
    Proc.exec_bind_of_ok hvalues, Proc.exec_bind_modify, Proc.exec_bind_modify]
  refine (exec_shifted (t := writeLease r.lease.leaseId (ended status reason)
    (s.writeAllocated (s.allocations (· - ·) r.lease))) h hl (fun a => Nat.sub_zero a)
    (fun d hd => ?_) rfl).trans ?_
  · have := h.within d hd
    unfold DomainRecord.Within at this
    omega
  · rw [writeAllocated_eq (by rw [fst_allocations]; exact hl.unique)]
    rfl

theorem exec_terminalize (h : s.Balanced) (hr : r ∈ s.leases) (hactive : r.status = .active) :
    Proc.exec (terminalize r.lease.leaseId status reason) s =
      (.ok .unit, s.terminated r.lease status reason) := by
  rw [exec_closed h.coherent hr hactive]
  unfold closed terminated
  rw [map_shifted h fun a => Nat.sub_zero a]

theorem activeBytes_closed (h : s.Coherent) (hr : r ∈ s.leases) (hactive : r.status = .active)
    (hstatus : status ≠ .active) (domainId : String) :
    (s.closed r.lease status reason).activeBytes domainId =
      s.activeBytes domainId - r.lease.bytesFor domainId := by
  have hsum := sum_ended reason hstatus hactive domainId (map_leaseId ▸ h.leaseIds) hr
  unfold activeBytes closed
  rw [← hsum, Nat.add_sub_cancel, List.map_map]
  rfl

/-! ## Balance is kept -/

/-- The domains after an adjustment are still in order. -/
structure Adjusts (s t : Ledger) (new : Nat → Nat → Nat) (l : ResourceLease) : Prop where
  domains : t.domains = s.domains.map (adjusted new l)
  fits : ∀ d ∈ s.domains, new d.allocatedBytes (l.bytesFor d.id) ≤ d.domain.allocatableBytes
  held : ∀ d ∈ s.domains, new d.allocatedBytes (l.bytesFor d.id) = t.activeBytes d.id

namespace Adjusts

variable {t : Ledger} (h : s.Balanced) (ha : Adjusts s t new l)

include ha

theorem ids_eq : t.domains.map DomainRecord.id = s.domains.map DomainRecord.id := by
  rw [ha.domains, List.map_map]
  exact List.map_congr_left fun d _ => DomainRecord.reallocated_id

theorem placed {l' : ResourceLease} (hl' : l'.Placed s) : l'.Placed t :=
  ⟨hl'.unique, fun x hx => by
    rw [ha.ids_eq]
    exact hl'.known x hx⟩

theorem forall_domains {P : DomainRecord → Prop} (hP : ∀ d ∈ s.domains, P (adjusted new l d)) :
    ∀ d ∈ t.domains, P d := by
  rw [ha.domains]
  exact List.forall_mem_map.mpr hP

theorem within : ∀ d ∈ t.domains, d.Within :=
  ha.forall_domains fun d hd => by
    unfold DomainRecord.Within adjusted
    rw [DomainRecord.reallocated_allocatedBytes, DomainRecord.reallocated_domain]
    exact ha.fits d hd

theorem accounted : ∀ d ∈ t.domains, d.allocatedBytes = t.activeBytes d.id :=
  ha.forall_domains fun d hd => by
    unfold adjusted
    rw [DomainRecord.reallocated_allocatedBytes, DomainRecord.reallocated_id]
    exact ha.held d hd

include h

theorem watermarks :
    ∀ d ∈ t.domains, d.domain.pressureExitBytes < d.domain.pressureEnterBytes :=
  ha.forall_domains fun d hd => by
    have := h.watermarks d hd
    rwa [adjusted, DomainRecord.reallocated_domain]

theorem settled : ∀ d ∈ t.domains, d.recompute = d :=
  ha.forall_domains fun d hd => DomainRecord.recompute_recompute (h.watermarks d hd)

end Adjusts

theorem tokens_terminated : (s.terminated l status reason).tokens = s.tokens := by
  unfold tokens terminated
  rw [List.map_map]
  refine List.map_congr_left fun r _ => ?_
  rw [Function.comp_apply]
  split
  · rfl
  · rfl

theorem Balanced.terminated (h : s.Balanced) (hr : r ∈ s.leases) (hactive : r.status = .active)
    (hstatus : status ≠ .active) : (s.terminated r.lease status reason).Balanced := by
  have ha : Adjusts s (s.terminated r.lease status reason) (· - ·) r.lease :=
    { domains := rfl
      fits := fun d hd => by
        have := h.within d hd
        unfold DomainRecord.Within at this
        omega
      held := fun d hd => by
        have hheld := (@activeBytes_closed _ _ _ reason) h.coherent hr hactive hstatus d.id
        rw [h.accounted d hd]
        exact hheld.symm }
  have htokens : (s.terminated r.lease status reason).tokens = s.tokens := tokens_terminated
  exact
    { ids := ha.ids_eq ▸ h.ids
      watermarks := ha.watermarks h
      settled := ha.settled h
      within := ha.within
      accounted := ha.accounted
      leaseIds := htokens ▸ h.leaseIds
      placed := fun l hl => ha.placed (h.placed l (htokens ▸ hl))
      increasing := htokens ▸ h.increasing
      next := htokens ▸ h.next
      replays := htokens ▸ h.replays }

/-! ## Admitting a lease -/

/-- The ledger after the lease was admitted. -/
def opened (l : ResourceLease) (s : Ledger) : Ledger :=
  addLease l { s with domains := s.domains.map (shifted (· + ·) l) }

/-- The same in a balanced state. -/
def admitted (l : ResourceLease) (s : Ledger) : Ledger :=
  addLease l { s with domains := s.domains.map (adjusted (· + ·) l) }

/-- Every reservation of the lease fits its domain. -/
def Fits (s : Ledger) (l : ResourceLease) : Prop :=
  ∀ d ∈ s.domains, d.allocatedBytes + l.bytesFor d.id ≤ d.domain.allocatableBytes

theorem exec_opened (h : s.Coherent) (hl : l.Placed s) (hfits : s.Fits l) :
    Proc.exec ((s.allocations (· + ·) l).forM fun v => do let _ ← recompute v.1)
      (addLease l (s.writeAllocated (s.allocations (· + ·) l))) = (.ok .unit, s.opened l) := by
  refine (exec_shifted (t := addLease l (s.writeAllocated (s.allocations (· + ·) l))) h hl
    (fun a => Nat.add_zero a) hfits rfl).trans ?_
  rw [writeAllocated_eq (by rw [fst_allocations]; exact hl.unique)]
  rfl

theorem exec_admitted (h : s.Balanced) (hl : l.Placed s) (hfits : s.Fits l) :
    Proc.exec ((s.allocations (· + ·) l).forM fun v => do let _ ← recompute v.1)
      (addLease l (s.writeAllocated (s.allocations (· + ·) l))) = (.ok .unit, s.admitted l) := by
  rw [exec_opened h.coherent hl hfits]
  unfold opened admitted
  rw [map_shifted h fun a => Nat.add_zero a]

theorem tokens_admitted : (s.admitted l).tokens = s.tokens ++ [l] := by
  simp [tokens, admitted, addLease]

theorem replay?_admitted {key : String × String} : (s.admitted l).replay? key =
    (s.replay? key).or (if key = (l.ownerId, l.idempotencyKey) then some (l.reservations, l.leaseId)
      else none) := by
  unfold replay? admitted addLease
  rw [List.lookup_append, List.lookup_cons, List.lookup_nil]
  by_cases hkey : key = (l.ownerId, l.idempotencyKey)
  · simp [hkey]
  · rw [if_neg hkey, beq_false_of_ne hkey]

theorem Balanced.admitted (h : s.Balanced) (hl : l.Placed s) (hfits : s.Fits l)
    (hfresh : s.lease? l.leaseId = none) (hgeneration : ∀ l' ∈ s.tokens, l'.generation < l.generation)
    (hnext : ∀ g, s.nextGeneration = some g → l.generation < g) : (s.admitted l).Balanced := by
  have ha : Adjusts s (s.admitted l) (· + ·) l :=
    { domains := rfl
      fits := hfits
      held := fun d hd => by
        rw [h.accounted d hd]
        simp [activeBytes, Ledger.admitted, addLease, LeaseRecord.heldBytes] }
  have hnew : l.leaseId ∉ s.tokens.map ResourceLease.leaseId := by
    rw [map_leaseId]
    intro hin
    obtain ⟨r, hr, he⟩ := List.mem_map.mp hin
    exact List.find?_eq_none.mp hfresh r hr (by simpa using he)
  exact
    { ids := ha.ids_eq ▸ h.ids
      watermarks := ha.watermarks h
      settled := ha.settled h
      within := ha.within
      accounted := ha.accounted
      leaseIds := by
        rw [tokens_admitted, List.map_append]
        exact List.Nodup.append h.leaseIds (List.nodup_singleton _) (by simpa using hnew)
      placed := by
        rw [tokens_admitted]
        intro l' hl'
        rcases List.mem_append.mp hl' with hold | hone
        · exact ha.placed (h.placed l' hold)
        · rw [List.mem_singleton.mp hone]
          exact ha.placed hl
      increasing := by
        rw [tokens_admitted, List.pairwise_append]
        exact ⟨h.increasing, List.pairwise_singleton _ _, by simpa using hgeneration⟩
      next := fun g hg => ⟨(h.next g hg).1, by
        rw [tokens_admitted]
        intro l' hl'
        rcases List.mem_append.mp hl' with hold | hone
        · exact (h.next g hg).2 l' hold
        · rw [List.mem_singleton.mp hone]
          exact hnext g hg⟩
      replays := fun key entry he => by
        rw [replay?_admitted, Option.or_eq_some_iff] at he
        rw [tokens_admitted]
        rcases he with he | ⟨-, he⟩
        · obtain ⟨l', hl', hprops⟩ := h.replays key entry he
          exact ⟨l', List.mem_append_left _ hl', hprops⟩
        · split at he
          · rename_i hkey
            cases he
            exact ⟨l, List.mem_append_right _ (List.mem_singleton_self l), rfl, rfl, hkey.symm⟩
          · cases he }

end Ledger

end LumaOS.Memory
