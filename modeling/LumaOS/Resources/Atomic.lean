import LumaOS.Resources.Admission

/-!
# A refused operation changes nothing, and none panics

`admit`, `restart`, `quarantine` and the reviewed cuts work on a copy; `renew`, `complete_output`,
`revoke` and `observe` write fields of `self` after several fallible steps, and index
`self.domains` and `self.leases` directly. `direct_safe` says that on a ledger that validates all
of them do their failing before their first write, and that no index and no subtraction panics;
**`direct_atomic`** reads it off a failed call.

The panics are excluded operation by operation from what stands before them: `validate` indexes
domains only once a plan is known to name them (`noPanic_validate`, for any ledger), an active
lease of a valid ledger reserves in known domains (`noPanic_assertActive`), and a loop over an
inventory writes the keys it was compared with.
-/

namespace LumaOS.Resources

open LumaOS.Base LumaOS.Text

theorem noPanic_minus {a b : Nat} (h : b ≤ a) : NoPanic (minus a b) := by
  unfold minus
  rw [if_pos h]
  exact noPanic_ok (a - b)

instance noPanic_checkedAdd (a b : Nat) (m : String) : NoPanic (checkedAdd a b m) :=
  noPanic_okOr _ _

instance noPanic_checkedSub (a b : Nat) (m : String) : NoPanic (checkedSub a b m) :=
  noPanic_okOr _ _

instance noPanic_domainValidate (d : Domain) : NoPanic d.validate := noPanic_refuseIf _ _

namespace Ledger

variable {l : Ledger}

/-! ## The readers -/

instance noPanic_charged (l : Ledger) (domain : String) : NoPanic (l.charged domain) := by
  unfold charged
  infer_instance

instance noPanic_reservationsValid (l : Ledger) (rs : List Reservation) :
    NoPanic (l.reservationsValid rs) := by
  unfold reservationsValid reservationStep
  infer_instance

/-- The snapshot's keys are the reserved domains, and the ledger has those. -/
theorem noPanic_outputEpochsValid {lease : Lease} (h : PlanOk l.domains lease.reservations) :
    NoPanic (l.outputEpochsValid lease) := by
  unfold outputEpochsValid
  split
  · exact noPanic_ok ()
  · rename_i epochs _
    refine noPanic_bind (noPanic_refuseIf _ _) fun _ hkeys => noPanic_forM fun e he => ?_
    rw [refuseIf_eq_ok, Bool.or_eq_false_iff, bne_eq_false_iff_eq] at hkeys
    have hmem : e.1 ∈ epochs.keys :=
      Table.mem_keys_iff_get.mpr ⟨e.2, Table.mem_toList_iff_get.mp he⟩
    rw [hkeys.2, List.mem_map] at hmem
    obtain ⟨r, hr, hdomain⟩ := hmem
    obtain ⟨d, hd⟩ := Table.mem_iff_get.mp (h.each r hr).2.2
    rw [hdomain] at hd
    exact noPanic_bind (noPanic_expect hd _) fun _ _ => noPanic_refuseIf _ _

instance noPanic_leaseStep (l : Ledger) (seen : Seen) (lease : Lease) :
    NoPanic (l.leaseStep seen lease) := by
  unfold leaseStep
  refine noPanic_bind (noPanic_refuseIf _ _) fun _ _ =>
    noPanic_bind (noPanic_reservationsValid l _) fun _ hplan => ?_
  exact noPanic_bind (noPanic_outputEpochsValid (reservationsValid_eq_ok.mp hplan))
    fun _ _ => inferInstance

/-- **`validate` never panics**, on any ledger: what it indexes and subtracts it has checked. -/
instance noPanic_validate (l : Ledger) : NoPanic l.validate := by
  unfold validate
  refine noPanic_bind (noPanic_refuseIf _ _) fun _ _ => ?_
  split
  · exact noPanic_refuseIf _ _
  · refine noPanic_bind (noPanic_refuseIf _ _) fun _ _ => ?_
    have hdomains : NoPanic (l.domains.toList.forM domainStep) := by
      unfold domainStep
      infer_instance
    refine noPanic_bind hdomains fun _ hdom => ?_
    have harchives : NoPanic (l.archives.foldlM l.archiveStep 0) := by
      unfold archiveStep
      infer_instance
    refine noPanic_bind harchives fun _ _ => noPanic_bind inferInstance fun _ _ =>
      noPanic_forM fun e he => ?_
    have hroom := (domain_validate_eq_ok.mp
      (domainStep_eq_ok.mp (forM_eq_ok.mp hdom e he)).2).1.le
    unfold chargeStep
    exact noPanic_bind inferInstance fun _ _ =>
      noPanic_bind (noPanic_minus hroom) fun _ _ => inferInstance

instance noPanic_index (l : Ledger) (token : Token) (owner : Owner) :
    NoPanic (l.index token owner) := noPanic_okOr _ _

/-- What `position` found is there. -/
theorem exists_of_findIdx {p : Lease → Bool} {i : Nat} (h : l.leases.findIdx? p = some i) :
    ∃ lease ∈ l.leases, l.leases[i]? = some lease := by
  rw [List.findIdx?_eq_some_iff_getElem] at h
  obtain ⟨hi, -, -⟩ := h
  exact ⟨_, List.getElem_mem hi, List.getElem?_eq_getElem hi⟩

theorem Valid.reserved (hv : l.Valid) {lease : Lease} (hl : lease ∈ l.leases) {r : Reservation}
    (hr : r ∈ lease.reservations) : ∃ d, l.domains[r.domain]? = some d :=
  Table.mem_iff_get.mp ((hv.leaseOk hl).plan.each r hr).2.2

theorem noPanic_currentEpochs (hv : l.Valid) {lease : Lease} (hl : lease ∈ l.leases) :
    NoPanic (l.currentEpochs lease) := by
  unfold currentEpochs
  refine noPanic_bind (noPanic_mapM fun r hr => ?_) fun _ _ => noPanic_pure _
  obtain ⟨d, hd⟩ := hv.reserved hl hr
  exact noPanic_bind (noPanic_expect hd _) fun _ _ => noPanic_pure _

/-- The plan names known domains, and those have room above their reserve. -/
theorem noPanic_capacityAvailable (hv : l.Valid) {rs : List Reservation}
    (hplan : PlanOk l.domains rs) : NoPanic (l.capacityAvailable rs) := by
  unfold capacityAvailable
  refine noPanic_forM fun r hr => ?_
  obtain ⟨d, hd⟩ := Table.mem_iff_get.mp (hplan.each r hr).2.2
  have hroom := (domain_validate_eq_ok.mp ((hv.ready_of_get hd).domains r.domain d hd).2).1.le
  unfold admitStep
  refine noPanic_bind (noPanic_expect hd _) fun domain hdomain => ?_
  rw [expect_eq_ok, hd] at hdomain
  cases hdomain
  exact noPanic_bind inferInstance fun _ _ => noPanic_bind inferInstance fun _ _ =>
    noPanic_bind inferInstance fun _ _ => noPanic_bind (noPanic_minus hroom)
      fun _ _ => inferInstance

/-! ## The loops over domain tables -/

theorem noPanic_restartDomains (l : Ledger) (inventory : Table Domain) :
    NoPanic (l.restartDomains inventory) := by
  unfold restartDomains
  split
  · exact noPanic_ok inventory
  · refine noPanic_bind (noPanic_refuseIf _ _) fun _ hkeys => ?_
    rw [refuseIf_eq_ok, bne_eq_false_iff_eq] at hkeys
    refine noPanic_foldlM_of (I := fun _ => True) trivial fun s e he _ => ⟨?_, fun _ _ => trivial⟩
    have hmem : e.1 ∈ l.domains.keys :=
      Table.mem_keys_iff_get.mpr ⟨e.2, Table.mem_toList_iff_get.mp he⟩
    rw [hkeys, Table.mem_keys_iff_get] at hmem
    obtain ⟨live, hlive⟩ := hmem
    unfold restartStep
    exact noPanic_bind (noPanic_expect hlive _) fun _ _ => noPanic_pure _

instance noPanic_debitCredits (l : Ledger) (rs : List Reservation) (credits : Table Nat) :
    NoPanic (l.debitCredits rs credits) := by
  unfold debitCredits
  refine noPanic_foldlM (fun t e => ?_) _ _
  unfold creditStep
  refine noPanic_bind inferInstance fun plan _ => noPanic_bind inferInstance fun d _ =>
    noPanic_bind inferInstance fun _ hle => ?_
  rw [refuseIf_eq_ok, Bool.or_eq_false_iff, decide_eq_false_iff_not, Nat.not_lt] at hle
  exact noPanic_bind (noPanic_minus hle.1) fun _ _ => noPanic_pure _

instance noPanic_drainDomains (l : Ledger) (retained : Table Nat) :
    NoPanic (l.drainDomains retained) := by
  unfold drainDomains drainStep
  infer_instance

/-- Every key the loop reads is one of `self.domains`, and its inserts keep those. -/
theorem noPanic_clearDomains {inventory : Table Domain}
    (hkeys : l.domains.keys = inventory.keys) : NoPanic (l.clearDomains inventory) := by
  unfold clearDomains
  refine noPanic_foldlM_of (I := fun t => ∀ id, id ∈ inventory → id ∈ t) ?_ ?_
  · intro id hid
    rwa [← Std.ExtTreeMap.mem_keys, hkeys, Std.ExtTreeMap.mem_keys]
  · intro t e he hI
    have hmem : e.1 ∈ inventory :=
      Table.mem_iff_get.mpr ⟨e.2, Table.mem_toList_iff_get.mp he⟩
    obtain ⟨old, hold⟩ := Table.mem_iff_get.mp (hI e.1 hmem)
    unfold clearStep
    constructor
    · exact noPanic_bind inferInstance fun _ _ => noPanic_bind (noPanic_expect hold _)
        fun _ _ => inferInstance
    · intro t' ht id hid
      simp only [bind_eq_ok, pure_eq_ok] at ht
      obtain ⟨-, -, -, -, -, -, rfl⟩ := ht
      exact Std.ExtTreeMap.mem_insert.mpr (Or.inr (hI id hid))

instance noPanic_migrateDomains (l : Ledger) (inventory : Table Domain) :
    NoPanic (l.migrateDomains inventory) := by
  unfold migrateDomains
  refine noPanic_foldlM (fun t e => ?_) _ _
  unfold migrateStep
  split
  · exact noPanic_ok t
  · infer_instance

/-! ## The operations -/

/-- The operation either returns, or refuses on a ledger it has not touched. -/
abbrev Atomic {α : Type} (m : Mut Ledger α) (l : Ledger) : Prop := Mut.Safe m l fun _ _ => True

/-- A validated copy is installed whole. -/
theorem atomic_install (next l : Ledger) :
    Atomic (do liftM next.validate; set next : Mut Ledger PUnit) l :=
  Mut.safe_bind_lift fun _ _ => Mut.safe_set trivial

theorem atomic_restart (epoch : String) (inventory : Table Domain) :
    Atomic (restart epoch inventory) l := by
  unfold restart
  refine Mut.safe_bind_get (Mut.safe_bind_lift fun _ _ => ?_)
  have hinventory : NoPanic (inventoryValid inventory) := by
    unfold inventoryValid
    infer_instance
  exact Mut.safe_bind_check hinventory fun _ _ =>
    Mut.safe_bind_check (noPanic_restartDomains l inventory) fun _ _ => atomic_install _ l

/-- `admit` validates `self` before it indexes anything, so it is safe on any ledger. -/
theorem atomic_admitLease (owner : Owner) (request binding : String)
    (reservations : List Reservation) (now deadline : Nat) {random : Result (Vector UInt8 16)}
    (hrandom : NoPanic random) :
    Atomic (admitLease owner request binding reservations now deadline random) l := by
  unfold admitLease
  refine Mut.safe_bind_get (Mut.safe_bind_lift fun _ hvalid => Mut.safe_bind_lift fun _ hplan =>
    Mut.safe_bind_lift fun _ _ => ?_)
  have hv : l.Valid := validate_eq_ok.mp hvalid
  split
  · exact Mut.safe_bind_lift fun _ _ =>
      Mut.safe_bind_check (noPanic_assertActive hv ..) fun _ _ => Mut.safe_pure trivial
  · refine Mut.safe_bind_lift fun _ _ => Mut.safe_bind_check
      (noPanic_capacityAvailable hv (reservationsValid_eq_ok.mp hplan)) fun _ _ => ?_
    exact Mut.safe_bind_lift fun _ _ => Mut.safe_bind_check hrandom fun _ _ =>
      Mut.safe_bind_lift fun _ _ => Mut.safe_bind_lift fun _ _ => Mut.safe_of_exec rfl trivial

theorem atomic_admitReusingRetained (owner : Owner) (request binding : String)
    (reservations : List Reservation) (now deadline : Nat) (credits : Table Nat)
    {random : Result (Vector UInt8 16)} (hrandom : NoPanic random) :
    Atomic (admitReusingRetained owner request binding reservations now deadline credits random)
      l := by
  unfold admitReusingRetained
  refine Mut.safe_bind_get ?_
  split
  · exact atomic_admitLease _ _ _ _ _ _ hrandom
  · -- the credits are debited and the lease admitted on a copy
    refine Mut.safe_bind_lift fun domains _ => ?_
    have hadmission := (atomic_admitLease (l := { l with domains }) owner request binding
      reservations now deadline hrandom).noPanic
    exact Mut.safe_bind_check hadmission fun _ _ => Mut.safe_of_exec rfl trivial

theorem atomic_renew (hv : l.Valid) (token : Token) (owner : Owner) (now deadline : Nat) :
    Atomic (renew token owner now deadline) l := by
  unfold renew
  exact Mut.safe_bind_get (Mut.safe_bind_check (noPanic_assertActive hv ..) fun _ _ =>
    Mut.safe_bind_lift fun _ _ => Mut.safe_bind_lift fun _ _ => Mut.safe_modify trivial)

theorem atomic_completeOutput (token : Token) (owner : Owner) (now : Nat) (digest : String) :
    Atomic (completeOutput token owner now digest) l := by
  unfold completeOutput
  refine Mut.safe_bind_get (Mut.safe_bind_lift fun _ hvalid => ?_)
  have hv : l.Valid := validate_eq_ok.mp hvalid
  refine Mut.safe_bind_check (noPanic_assertActive hv ..) fun _ _ =>
    Mut.safe_bind_lift fun _ _ => Mut.safe_bind_lift fun i hi => ?_
  obtain ⟨found, hfound, hget⟩ := exists_of_findIdx (index_eq_ok.mp hi)
  refine Mut.safe_bind_check (noPanic_expect hget _) fun lease hlease => ?_
  rw [expect_eq_ok, hget] at hlease
  cases hlease
  refine Mut.safe_bind_check (noPanic_currentEpochs hv hfound) fun _ _ => ?_
  split
  · exact Mut.safe_lift fun _ _ => trivial
  · exact Mut.safe_modify trivial

theorem atomic_revoke (token : Token) (reason : String) : Atomic (revoke token reason) l := by
  unfold revoke
  exact Mut.safe_bind_get (Mut.safe_bind_lift fun _ _ => Mut.safe_bind_lift fun _ _ =>
    Mut.safe_modify trivial)

/-- Everything that can overflow is computed before the domain is written. -/
theorem atomic_observe (id : String) (used retained : Nat) :
    Atomic (observe id used retained) l := by
  unfold observe
  exact Mut.safe_bind_get (Mut.safe_bind_lift fun _ _ => Mut.safe_bind_lift fun _ _ =>
    Mut.safe_bind_lift fun _ _ => Mut.safe_bind_lift fun _ _ => Mut.safe_bind_lift fun _ _ =>
    Mut.safe_modify trivial)

theorem atomic_quarantine (id reason : String) : Atomic (quarantine id reason) l := by
  unfold quarantine
  refine Mut.safe_bind_get (Mut.safe_bind_lift fun _ _ => Mut.safe_bind_lift fun d _ => ?_)
  have hdomains : NoPanic (l.quarantineDomains id d) := by
    unfold quarantineDomains
    infer_instance
  exact Mut.safe_bind_check hdomains fun _ _ => atomic_install _ l

theorem atomic_finishDraining (token : Token) (retained : Table Nat) :
    Atomic (finishDraining token retained) l := by
  unfold finishDraining
  refine Mut.safe_bind_get (Mut.safe_bind_lift fun i hi => ?_)
  obtain ⟨found, -, hget⟩ := exists_of_findIdx (okOr_eq_ok.mp hi)
  exact Mut.safe_bind_check (noPanic_expect hget _) fun _ _ => Mut.safe_bind_lift fun _ _ =>
    Mut.safe_bind_lift fun _ _ => Mut.safe_bind_lift fun _ _ => atomic_install _ l

theorem atomic_clearQuarantine (sha256 : Bytes → Vector UInt8 32) (review : String)
    (inventory : Table Domain) : Atomic (clearQuarantine sha256 review inventory) l := by
  unfold clearQuarantine
  refine Mut.safe_bind_get (Mut.safe_bind_lift fun _ hguard => ?_)
  rw [refuseIf_eq_ok, Bool.or_eq_false_iff, bne_eq_false_iff_eq] at hguard
  exact Mut.safe_bind_check (noPanic_clearDomains hguard.2) fun _ _ => atomic_install _ l

theorem atomic_migrateInventory (sha256 : Bytes → Vector UInt8 32) (review epoch : String)
    (inventory : Table Domain) : Atomic (migrateInventory sha256 review epoch inventory) l := by
  unfold migrateInventory
  exact Mut.safe_bind_get (Mut.safe_bind_lift fun _ _ => Mut.safe_bind_lift fun _ _ =>
    Mut.safe_bind_lift fun _ _ => atomic_install _ l)

theorem atomic_archive (sha256 : Bytes → Vector UInt8 32) (review epoch : String)
    (digest : Vector UInt8 32) : Atomic (archive sha256 review epoch digest) l := by
  unfold archive
  exact Mut.safe_bind_get (Mut.safe_bind_lift fun _ _ => Mut.safe_modify trivial)

/-! ## All of them -/

/-- The operation called on the ledger itself, without the copy `Store::transaction` makes. -/
def Op.direct (sha256 : Bytes → Vector UInt8 32) : Op → Mut Ledger (Option Token)
  | .observe id used retained => do Ledger.observe id used retained; pure none
  | op => op.method sha256

/-- `random_id` reads a device: it returns sixteen bytes or an error. -/
def Op.Drawn : Op → Prop
  | .admitLease _ _ _ _ _ _ random => NoPanic random
  | .admitReusingRetained _ _ _ _ _ _ _ random => NoPanic random
  | _ => True

theorem direct_safe (hv : l.Valid) (sha256 : Bytes → Vector UInt8 32) {op : Op} (hop : op.Drawn) :
    Atomic (op.direct sha256) l := by
  cases op with
  | restart => exact Mut.safe_bind_pure (atomic_restart ..)
  | admitLease => exact Mut.safe_bind_pure (atomic_admitLease _ _ _ _ _ _ hop)
  | admitReusingRetained =>
    exact Mut.safe_bind_pure (atomic_admitReusingRetained _ _ _ _ _ _ _ hop)
  | renew => exact Mut.safe_bind_pure (atomic_renew hv ..)
  | completeOutput => exact Mut.safe_bind_pure (atomic_completeOutput ..)
  | revoke => exact Mut.safe_bind_pure (atomic_revoke ..)
  | expire => exact Mut.safe_bind_pure (Mut.safe_modify trivial)
  | observe => exact Mut.safe_bind_pure (atomic_observe ..)
  | quarantine => exact Mut.safe_bind_pure (atomic_quarantine ..)
  | finishDraining => exact Mut.safe_bind_pure (atomic_finishDraining ..)
  | clearQuarantine => exact Mut.safe_bind_pure (atomic_clearQuarantine ..)
  | migrateInventory => exact Mut.safe_bind_pure (atomic_migrateInventory ..)
  | archive => exact Mut.safe_bind_pure (atomic_archive ..)

/-- **Every fallible operation is atomic and total**: on a ledger that validates, an operation that
does not return has refused with a message, and has left the ledger as it was. -/
theorem direct_atomic {l : Ledger} (hv : l.validate = .ok ()) (sha256 : Bytes → Vector UInt8 32)
    (op : Op) (hop : op.Drawn) {stop : Stop} {l' : Ledger}
    (h : (op.direct sha256).exec l = (.error stop, l')) :
    l' = l ∧ ∃ message, stop = .refused message := by
  have hsafe := direct_safe (validate_eq_ok.mp hv) sha256 hop
  refine ⟨hsafe.spec.of_error h, ?_⟩
  have hpanic := hsafe.noPanic
  rw [h] at hpanic
  cases stop with
  | refused message => exact ⟨message, rfl⟩
  | panicked message => exact absurd rfl (hpanic.out message)

/-- An observation that overflows, on the ledger of a first admission. -/
theorem direct_atomic_sample :
    let sha256 := fun _ : Bytes => Vector.replicate 32 0
    let l := run sha256 empty sampleAdmission
    ((Op.observe "ram" (2 ^ 64 - 1) 0).direct sha256).exec l =
      (.error (.refused "resource observation overflow"), l) := by
  intro sha256 l
  have hfail : (((Op.observe "ram" (2 ^ 64 - 1) 0).direct sha256).exec l).1 =
      .error (.refused "resource observation overflow") := by decide
  exact Prod.ext hfail
    (direct_atomic (by decide) sha256 (.observe "ram" (2 ^ 64 - 1) 0) trivial
      (Prod.ext hfail rfl)).1

end Ledger

end LumaOS.Resources
