import LumaOS.Resources.Reachable

/-!
# Revocation fences authority, never capacity

The charge of a domain across operations and runs: what the test
`revoked_expired_and_restarted_leases_hold_capacity_until_observed_drainage` checks on one ledger,
for every valid ledger and every run (`charge_only_returned_by_drainage`).

A quiet step moves lease states and rebuilds the domain table but keeps the held reservations and
the retained bytes, so it keeps every charge (`Quiet.charged`). An admission adds its plan
(`Fresh.charge`), and a debit of retained bytes never exceeds the plan. What is left is drainage
and observation: `run_unless` carries an invariant through a run up to the first success of such
an operation.
-/

namespace LumaOS.Resources

open LumaOS.Base LumaOS.Text

namespace Ledger

variable {l l' : Ledger} {id : String}

/-! ## One step -/

/-- A domain of a valid ledger has a charge. -/
theorem Valid.charged_eq (hv : l.Valid) {d : Domain} (hd : l.domains[id]? = some d) :
    l.charged id = .ok (l.charge id d.retained) := by
  obtain ⟨v, hcharged, -⟩ := (hv.ready_of_get hd).capacity id d hd
  obtain ⟨d', hd', rfl, -⟩ := charged_eq_ok.mp hcharged
  rw [hd] at hd'
  cases hd'
  exact hcharged

theorem Quiet.charged (h : Quiet l l') (hid : id ∈ l.domains) :
    l'.charged id = l.charged id := by
  obtain ⟨f, hleases, hf⟩ := h.leases
  obtain ⟨d, hd⟩ := Table.mem_iff_get.mp hid
  obtain ⟨d', hd', hret⟩ := h.domains id d hd
  refine charged_congr ?_ (by rw [hd, hd', Option.map_some, Option.map_some, hret])
  unfold held
  rw [hleases]
  exact held_map (fun x hx => (hf x hx).1.reservations) fun x hx => (hf x hx).2

theorem Cut.charged (h : Cut l l') : l'.charged id = l.charged id := by
  refine charged_congr ?_ (by rw [h.domains])
  rw [held_eq_nil h.released, held_eq_nil]
  rw [h.leases]
  nofun

/-- An admission is charged in full, on top of what stays retained. -/
theorem Fresh.charge {lease : Lease} (h : Fresh l lease l') (retained : Nat) :
    l'.charge id retained = l.charge id retained + planPeak lease.reservations id := by
  have hu : lease.unreleased = true := by
    rw [Lease.unreleased, h.active]
    rfl
  unfold Ledger.charge peaks
  rw [h.leases, List.filter_append, List.filter_singleton, hu, cond_true, List.flatMap_append,
    List.sum_append, List.flatMap_singleton, ← Nat.add_assoc]
  rfl

theorem Effect.mem_domains {op : Op} {r : Option Token} (h : Effect l op r l')
    (hid : id ∈ l.domains) : id ∈ l'.domains := by
  obtain ⟨d, hd⟩ := Table.mem_iff_get.mp hid
  rw [Table.mem_iff_get]
  cases h with
  | quiet h =>
    obtain ⟨d', hd', -⟩ := h.domains id d hd
    exact ⟨d', hd'⟩
  | admitted _ hdom => exact ⟨d, hdom ▸ hd⟩
  | reused _ hdom =>
    obtain ⟨d', hd', -⟩ := hdom id d hd
    exact ⟨d', hd'⟩
  | drained h | observed h => exact Table.mem_iff_get.mp (h.domains id hid)
  | cut h => exact ⟨d, h.domains ▸ hd⟩

theorem run_mem_domains (hv : l.Valid) (sha256 : Bytes → Vector UInt8 32) (ops : List Op)
    (hid : id ∈ l.domains) : id ∈ (run sha256 l ops).domains := by
  induction ops generalizing l with
  | nil => exact hid
  | cons op ops ih =>
    obtain ⟨r, h⟩ := step_effect hv sha256 op
    exact ih h.valid (h.mem_domains hid)

/-- The operations that never change a charge. -/
def Op.keepsCharges : Op → Bool
  | .restart .. | .renew .. | .completeOutput .. | .revoke .. | .expire .. | .quarantine ..
  | .clearQuarantine .. | .migrateInventory .. | .archive .. => true
  | _ => false

/-- The operations that may lower a charge. -/
def Op.mayReturn : Op → Bool
  | .finishDraining .. | .observe .. => true
  | _ => false

theorem Effect.charged_eq {op : Op} {r : Option Token} (h : Effect l op r l')
    (hop : op.keepsCharges = true) (hid : id ∈ l.domains) : l'.charged id = l.charged id := by
  cases h with
  | quiet h => exact h.charged hid
  | cut h => exact h.charged
  | _ => cases hop

theorem Fresh.charged_of_domains {lease : Lease} (hv : l.Valid) (h : Fresh l lease l')
    (hdom : l'.domains = l.domains) (hid : id ∈ l.domains) :
    ∃ v, l.charged id = .ok v ∧ l'.charged id = .ok (v + planPeak lease.reservations id) := by
  obtain ⟨d, hd⟩ := Table.mem_iff_get.mp hid
  refine ⟨_, hv.charged_eq hd, ?_⟩
  rw [h.valid.charged_eq (hdom ▸ hd), h.charge]

theorem Fresh.charged_of_debited {lease : Lease} (hv : l.Valid) (h : Fresh l lease l')
    (hdom : Debited lease.reservations l.domains l'.domains) (hid : id ∈ l.domains) :
    ∃ v v', l.charged id = .ok v ∧ l'.charged id = .ok v' ∧ v ≤ v' := by
  obtain ⟨d, hd⟩ := Table.mem_iff_get.mp hid
  obtain ⟨d', hd', -, hge⟩ := hdom id d hd
  refine ⟨_, _, hv.charged_eq hd, h.valid.charged_eq hd', ?_⟩
  rw [h.charge]
  unfold Ledger.charge
  omega

theorem Effect.charged_le {op : Op} {r : Option Token} (hv : l.Valid) (h : Effect l op r l')
    (hop : op.mayReturn = false) (hid : id ∈ l.domains) :
    ∃ v v', l.charged id = .ok v ∧ l'.charged id = .ok v' ∧ v ≤ v' := by
  have hsame : l'.charged id = l.charged id →
      ∃ v v', l.charged id = .ok v ∧ l'.charged id = .ok v' ∧ v ≤ v' := by
    intro heq
    obtain ⟨d, hd⟩ := Table.mem_iff_get.mp hid
    exact ⟨_, _, hv.charged_eq hd, heq.trans (hv.charged_eq hd), Nat.le_refl _⟩
  cases h with
  | quiet h => exact hsame (h.charged hid)
  | cut h => exact hsame h.charged
  | admitted h hdom =>
    obtain ⟨v, h1, h2⟩ := h.charged_of_domains hv hdom hid
    exact ⟨v, _, h1, h2, Nat.le_add_right _ _⟩
  | reused h hdom => exact h.charged_of_debited hv hdom hid
  | _ => cases hop

/-! ## Whole runs -/

/-- Some operation of the run that satisfies `q` succeeded. -/
def Succeeds (sha256 : Bytes → Vector UInt8 32) (q : Op → Prop) (l : Ledger) (ops : List Op) :
    Prop :=
  ∃ (before : List Op) (op : Op) (after : List Op) (r : Option Token) (l' : Ledger),
    ops = before ++ op :: after ∧ q op ∧ (op.method sha256).exec (run sha256 l before) = (.ok r, l')

/-- **An invariant up to the first success of a `q`.** What every effect of the other operations
preserves holds at the end of the run, unless a `q` succeeded in it. -/
theorem run_unless {P : Ledger → Prop} {q : Op → Prop} {sha256 : Bytes → Vector UInt8 32}
    (hstep : ∀ l op r l', l.Valid → ¬q op → Effect l op r l' → P l → P l') (hv : l.Valid)
    (hP : P l) (ops : List Op) :
    P (run sha256 l ops) ∨ Succeeds sha256 q l ops := by
  induction ops generalizing l with
  | nil => exact Or.inl hP
  | cons op ops ih =>
    have hspec := spec_method hv sha256 op
    rcases hexec : (op.method sha256).exec l with ⟨e | r, l'⟩
    · -- a failed operation leaves the ledger
      have hs : step sha256 l op = l := by rw [step, hexec, hspec.of_error hexec]
      obtain h | ⟨before, o, after, r, l'', rfl, hq, hok⟩ := ih hv hP
      · exact Or.inl (by rwa [run, List.foldl_cons, hs])
      · refine Or.inr ⟨op :: before, o, after, r, l'', rfl, hq, ?_⟩
        rwa [run, List.foldl_cons, hs]
    · have hs : step sha256 l op = l' := by rw [step, hexec]
      have heff := hspec.of_ok hexec
      by_cases hqo : q op
      · exact Or.inr ⟨[], op, ops, r, l', rfl, hqo, hexec⟩
      obtain h | ⟨before, o, after, r, l'', rfl, hq, hok⟩ :=
        ih heff.valid (hstep l op r l' hv hqo heff hP)
      · exact Or.inl (by rwa [run, List.foldl_cons, hs])
      · refine Or.inr ⟨op :: before, o, after, r, l'', rfl, hq, ?_⟩
        rwa [run, List.foldl_cons, hs]

/-- A lease with the identity and the plan of `x` that is not released. -/
def Holds (x : Lease) (l : Ledger) : Prop :=
  ∃ y ∈ l.leases, y.token = x.token ∧ y.reservations = x.reservations ∧ y.state ≠ .released

theorem unreleased_iff {x : Lease} : x.unreleased = true ↔ x.state ≠ .released := by
  unfold Lease.unreleased
  exact bne_iff_ne

theorem Effect.holds {op : Op} {r : Option Token} {x : Lease} (h : Effect l op r l')
    (hop : ∀ retained, op ≠ .finishDraining x.token retained) (hx : Holds x l) : Holds x l' := by
  obtain ⟨y, hy, ht, hres, hstate⟩ := hx
  have hmap : ∀ {f : Lease → Lease}, l'.leases = l.leases.map f → Evolves y (f y) →
      (f y).unreleased = y.unreleased → Holds x l' := by
    intro f hl hev hun
    refine ⟨f y, hl ▸ List.mem_map_of_mem hy, hev.token.trans ht, hev.reservations.trans hres, ?_⟩
    rwa [← unreleased_iff, hun, unreleased_iff]
  cases h with
  | quiet h =>
    obtain ⟨f, hl, hf⟩ := h.leases
    exact hmap hl (hf y hy).1 (hf y hy).2
  | admitted h _ | reused h _ => exact ⟨y, h.leases ▸ List.mem_append_left _ hy, ht, hres, hstate⟩
  | drained h =>
    rename_i token retained
    obtain ⟨f, hl, hf⟩ := h.leases
    refine hmap hl (hf y hy).1 ((hf y hy).2 fun he => hop retained ?_)
    rw [← he, ht]
  | observed h => exact ⟨y, h.leases ▸ hy, ht, hres, hstate⟩
  | cut h => exact absurd (h.released y hy) hstate

/-- The plan of an unreleased lease is part of the charge. -/
theorem planPeak_le_charge {y : Lease} (hy : y ∈ l.leases) (hu : y.state ≠ .released)
    (retained : Nat) : planPeak y.reservations id ≤ l.charge id retained := by
  have hsum : (l.peaks id).sum =
      ((l.leases.filter Lease.unreleased).map fun x => (x.peaks id).sum).sum := by
    rw [peaks, List.flatMap, List.sum_flatten, List.map_map]
    rfl
  have hle : (y.peaks id).sum ≤ (l.peaks id).sum := by
    rw [hsum]
    refine List.single_le_sum (fun _ _ => Nat.zero_le _) _ (List.mem_map.mpr ⟨y, ?_, rfl⟩)
    exact List.mem_filter.mpr ⟨hy, unreleased_iff.mpr hu⟩
  exact Nat.le_trans hle (Nat.le_add_left _ _)

/-- **Capacity is returned by drainage and observation only.** For a valid ledger, a domain of it
and a successful operation: the operations that fence, move or archive leases and those that
rebuild the domain table keep the charge; a fresh admission adds its plan's peak and a replayed
one nothing; an admission that reuses retained bytes never lowers it. So over a run the charge
does not fall unless a drainage or an observation succeeds, and a lease is charged for its plan
until its own drainage succeeds. -/
theorem charge_only_returned_by_drainage (sha256 : Bytes → Vector UInt8 32) (l : Ledger)
    (hl : l.validate = .ok ()) (id : String) (hid : id ∈ l.domains) :
    (∀ (op : Op) (r : Option Token) (l' : Ledger), op.keepsCharges = true →
      (op.method sha256).exec l = (.ok r, l') → l'.charged id = l.charged id) ∧
    (∀ owner request binding reservations now deadline random token l',
      (admitLease owner request binding reservations now deadline random).exec l = (.ok token, l') →
      (∀ x ∈ l.leases, ¬(x.owner = owner ∧ x.request = request)) →
      ∃ v, l.charged id = .ok v ∧ l'.charged id = .ok (v + planPeak reservations id) ∧
        ∃ x ∈ l'.leases, x.token = token ∧ x.reservations = reservations ∧ x.state = .active) ∧
    (∀ owner request binding reservations now deadline credits random token l',
      (admitReusingRetained owner request binding reservations now deadline credits random).exec l
        = (.ok token, l') →
      ∃ v v', l.charged id = .ok v ∧ l'.charged id = .ok v' ∧ v ≤ v') ∧
    (∀ ops : List Op, (∃ v v', l.charged id = .ok v ∧
        (run sha256 l ops).charged id = .ok v' ∧ v ≤ v') ∨
      Succeeds sha256 (fun op => op.mayReturn = true) l ops) ∧
    (∀ x ∈ l.leases, x.state ≠ .released → ∀ ops : List Op,
      (∃ y ∈ (run sha256 l ops).leases, y.token = x.token ∧ y.reservations = x.reservations ∧
        y.state ≠ .released ∧
        ∃ v, (run sha256 l ops).charged id = .ok v ∧ planPeak x.reservations id ≤ v) ∨
      Succeeds sha256 (fun op => ∃ retained, op = .finishDraining x.token retained) l ops) := by
  have hv := validate_eq_ok.mp hl
  refine ⟨?_, ?_, ?_, ?_, ?_⟩
  · intro op r l' hop h
    exact ((spec_method hv sha256 op).of_ok h).charged_eq hop hid
  · intro owner request binding reservations now deadline random token l' h hnew
    obtain ⟨-, -, old, hold, howner, hrequest, -⟩ | ⟨hfresh, hdom⟩ := (spec_admitLease ..).of_ok h
    · exact absurd ⟨howner, hrequest⟩ (hnew old hold)
    · obtain ⟨v, h1, h2⟩ := hfresh.charged_of_domains hv hdom hid
      exact ⟨v, h1, h2, _, hfresh.leases ▸ List.mem_append_right _ List.mem_cons_self, rfl, rfl,
        rfl⟩
  · intro owner request binding reservations now deadline credits random token l' h
    obtain ⟨rfl, -⟩ | ⟨hfresh, hdom⟩ := (spec_admitReusingRetained ..).of_ok h
    · obtain ⟨d, hd⟩ := Table.mem_iff_get.mp hid
      exact ⟨_, _, hv.charged_eq hd, hv.charged_eq hd, Nat.le_refl _⟩
    · exact hfresh.charged_of_debited hv hdom hid
  · intro ops
    obtain ⟨d, hd⟩ := Table.mem_iff_get.mp hid
    have hcharged := hv.charged_eq hd
    refine (run_unless (P := fun k => ∃ v', k.charged id = .ok v' ∧ l.charge id d.retained ≤ v')
      ?_ hv ⟨_, hcharged, Nat.le_refl _⟩ ops).imp_left fun ⟨v', h, hle⟩ => ⟨_, v', hcharged, h, hle⟩
    rintro k op r k' hk hop heff ⟨v, hkv, hle⟩
    obtain ⟨e, he, -⟩ := charged_eq_ok.mp hkv
    obtain ⟨w, w', hw, hw', hww⟩ :=
      heff.charged_le hk (by simpa using hop) (Table.mem_iff_get.mpr ⟨e, he⟩)
    rw [hkv] at hw
    cases hw
    exact ⟨w', hw', Nat.le_trans hle hww⟩
  · intro x hx hstate ops
    refine (run_unless (P := Holds x) ?_ hv ⟨x, hx, rfl, rfl, hstate⟩ ops).imp_left ?_
    · exact fun k op r k' _ hop heff => heff.holds fun retained he => hop ⟨retained, he⟩
    · rintro ⟨y, hy, ht, hres, hs⟩
      obtain ⟨d, hd⟩ := Table.mem_iff_get.mp (run_mem_domains hv sha256 ops hid)
      exact ⟨y, hy, ht, hres, hs, _, (run_valid hv sha256 ops).charged_eq hd,
        hres ▸ planPeak_le_charge hy hs d.retained⟩

set_option maxRecDepth 4000 in
theorem charge_only_returned_by_drainage_sample :
    let sha256 : Bytes → Vector UInt8 32 := fun _ => Vector.replicate 32 0
    let l := run sha256 empty sampleAdmission
    (run sha256 l [.revoke sampleToken "policy", .expire 1000]).charged "ram" = .ok 40 ∧
      ∀ (op : Op) (r : Option Token) (l' : Ledger), op.keepsCharges = true →
        (op.method sha256).exec l = (.ok r, l') → l'.charged "ram" = .ok 40 := by
  intro sha256 l
  refine ⟨by decide, fun op r l' hop h => ?_⟩
  have := (charge_only_returned_by_drainage sha256 l (by decide) "ram" (by decide)).1 op r l' hop h
  exact this.trans (by decide)

end Ledger

end LumaOS.Resources
