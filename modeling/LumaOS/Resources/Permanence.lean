import LumaOS.Resources.Receipt

/-!
# Refused receipts stay refused

Two conditions of a receipt are names or flags that can come back: the manager epoch is a string that
a later restart may reuse, and a quarantine is cleared. What makes a refusal final is the fence.
`Unfenced` is the invariant: an output that is not fenced belongs to the current manager and to
domains that are not quarantined, because every operation that changes either also fences
(`carries_method`). A refusal is then a fence, a foreign owner, or an epoch that was passed, and none
of these is undone.

* **`receipt_refused_forever`**: refused once, refused in every later ledger; and a receipt that is
  granted carries the lease's own binding and digest, with nothing since its output that interrupts
  it (`Interrupts`).
-/

namespace LumaOS.Resources

open LumaOS.Base LumaOS.Text LumaOS.Json

namespace Ledger

variable {l l' : Ledger} {token : Token} {x y : Lease} {epochs : Table Nat}

/-! ## What the operations do to the domains -/

/-- No domain is lost, no epoch falls, and outside `E` no quarantine begins or ends. -/
def Calm (E : String → Prop) (t t' : Table Domain) : Prop :=
  ∀ (id : String) (d : Domain), t[id]? = some d → ∃ d' : Domain, t'[id]? = some d' ∧
    d.epoch ≤ d'.epoch ∧ (¬E id → d'.quarantined = d.quarantined)

section Calm

variable {t t' : Table Domain} {E : String → Prop} {id : String} {d : Domain}

theorem Calm.refl (t : Table Domain) : Calm E t t :=
  fun _ d hd => ⟨d, hd, Nat.le_refl _, fun _ => rfl⟩

theorem Calm.of_forall (h : Calm (fun _ => False) t t') : Calm E t t' := by
  intro id d hd
  obtain ⟨d', hd', hle, hq⟩ := h id d hd
  exact ⟨d', hd', hle, fun _ => hq (fun h => h)⟩

theorem Calm.insert {d' : Domain} (hd : t[id]? = some d) (hle : d.epoch ≤ d'.epoch)
    (hq : ¬E id → d'.quarantined = d.quarantined) : Calm E t (t.insert id d') := by
  intro k o ho
  rw [Table.get_insert]
  split
  · rename_i hk
    subst hk
    rw [hd] at ho
    cases ho
    exact ⟨d', rfl, hle, hq⟩
  · exact ⟨o, ho, Nat.le_refl _, fun _ => rfl⟩

/-- A loop whose step changes its own domain calmly. -/
theorem calm_of_foldlM {γ : Type} {u : Table γ} {f : Table Domain → String × γ → Result (Table Domain)}
    (hf : ∀ t e t', f t e = .ok t' → ∃ o n : Domain, t[e.1]? = some o ∧ t' = t.insert e.1 n ∧
      o.epoch ≤ n.epoch ∧ (¬E e.1 → n.quarantined = o.quarantined))
    (h : u.toList.foldlM f t = .ok t') : Calm E t t' := by
  intro k d hd
  have hstep : ∀ t e t', f t e = .ok t' →
      (∃ o n : Domain, t[e.1]? = some o ∧ t'[e.1]? = some n ∧ o.epoch ≤ n.epoch ∧
        (¬E e.1 → n.quarantined = o.quarantined)) ∧ ∀ k, k ≠ e.1 → t'[k]? = t[k]? := by
    intro t e t' ht
    obtain ⟨o, n, ho, rfl, hle, hq⟩ := hf t e t' ht
    exact ⟨⟨o, n, ho, Table.get_insert_self, hle, hq⟩, fun k hk => Table.get_insert_ne hk.symm⟩
  obtain ⟨-, heq⟩ | ⟨_, -, o, n, ho, hn, hle, hq⟩ := Table.foldlM_entries
    (R := fun old e new => ∃ o n : Domain, old = some o ∧ new = some n ∧ o.epoch ≤ n.epoch ∧
      (¬E e.1 → n.quarantined = o.quarantined)) hstep h k
  · exact ⟨d, heq.trans hd, Nat.le_refl _, fun _ => rfl⟩
  · rw [hd] at ho
    cases ho
    exact ⟨n, hn, hle, hq⟩

end Calm

/-- Every domain, for an operation that fences every output anyway. -/
def everywhere (_ : String) : Prop := True

theorem calm_restartDomains {inventory domains : Table Domain}
    (h : l.restartDomains inventory = .ok domains) : Calm everywhere l.domains domains := by
  unfold restartDomains at h
  split at h
  · rename_i he
    rw [Std.ExtTreeMap.isEmpty_iff] at he
    intro id d hd
    simp [he] at hd
  · obtain ⟨-, -, h⟩ := bind_eq_ok.mp h
    intro id d hd
    obtain ⟨d', hd', rfl | rfl⟩ := restartLoop_eq_ok h hd
    · exact ⟨_, hd', Nat.le_refl _, fun hno => absurd trivial hno⟩
    · exact ⟨_, hd', Nat.le_refl _, fun hno => absurd trivial hno⟩

theorem calm_quarantineDomains {id : String} {d : Domain} {domains : Table Domain}
    (hd : l.domains[id]? = some d) (h : l.quarantineDomains id d = .ok domains) :
    Calm (fun k => k = id) l.domains domains := by
  unfold quarantineDomains at h
  split at h
  · cases h
    exact Calm.refl _
  · obtain ⟨epoch, hepoch, h⟩ := bind_eq_ok.mp h
    obtain rfl := pure_eq_ok.mp h
    obtain ⟨rfl, -⟩ := checkedAdd_eq_ok.mp hepoch
    exact Calm.insert hd (Nat.le_succ _) fun hno => absurd rfl hno

theorem calm_clearDomains {inventory domains : Table Domain}
    (h : l.clearDomains inventory = .ok domains) : Calm everywhere l.domains domains := by
  refine calm_of_foldlM (fun t e t' ht => ?_) h
  unfold clearStep at ht
  simp only [bind_eq_ok, expect_eq_ok, pure_eq_ok] at ht
  obtain ⟨-, -, o, ho, epoch, hepoch, rfl⟩ := ht
  obtain ⟨rfl, -⟩ := checkedAdd_eq_ok.mp hepoch
  exact ⟨o, _, ho, rfl, Nat.le_succ _, fun hno => absurd trivial hno⟩

theorem calm_drainDomains {retained : Table Nat} {domains : Table Domain}
    (h : l.drainDomains retained = .ok domains) : Calm (fun _ => False) l.domains domains := by
  refine calm_of_foldlM (fun t e t' ht => ?_) h
  unfold drainStep at ht
  simp only [bind_eq_ok, okOr_eq_ok, pure_eq_ok] at ht
  obtain ⟨o, ho, rfl⟩ := ht
  exact ⟨o, _, ho, rfl, Nat.le_refl _, fun _ => rfl⟩

theorem calm_debitCredits {rs : List Reservation} {credits : Table Nat} {domains : Table Domain}
    (h : l.debitCredits rs credits = .ok domains) : Calm (fun _ => False) l.domains domains := by
  refine calm_of_foldlM (fun t e t' ht => ?_) h
  unfold creditStep at ht
  simp only [bind_eq_ok, okOr_eq_ok, pure_eq_ok, refuseIf_eq_ok] at ht
  obtain ⟨-, -, o, ho, -, -, -, -, rfl⟩ := ht
  exact ⟨o, _, ho, rfl, Nat.le_refl _, fun _ => rfl⟩

theorem calm_migrateDomains {inventory domains : Table Domain}
    (hkept : ∀ id, id ∈ l.domains → id ∈ inventory)
    (h : l.migrateDomains inventory = .ok domains) : Calm everywhere l.domains domains := by
  intro id d hd
  have hstep : ∀ t e t', migrateStep l.domains t e = .ok t' →
      (∀ o : Domain, l.domains[e.1]? = some o →
        ∃ n : Domain, t'[e.1]? = some n ∧ o.epoch ≤ n.epoch) ∧ ∀ k, k ≠ e.1 → t'[k]? = t[k]? := by
    intro t e t' ht
    unfold migrateStep at ht
    split at ht
    · rename_i hnone
      cases ht
      refine ⟨fun o ho => ?_, fun _ _ => rfl⟩
      rw [hnone] at ho
      cases ho
    · rename_i o ho
      simp only [bind_eq_ok, pure_eq_ok] at ht
      obtain ⟨epoch, hepoch, rfl⟩ := ht
      obtain ⟨rfl, -⟩ := checkedAdd_eq_ok.mp hepoch
      refine ⟨fun o' ho' => ?_, fun k hk => Table.get_insert_ne hk.symm⟩
      rw [ho] at ho'
      cases ho'
      exact ⟨_, Table.get_insert_self, Nat.le_succ _⟩
  obtain ⟨hnone, -⟩ | ⟨_, -, hold⟩ := Table.foldlM_entries
    (R := fun _ e new => ∀ o : Domain, l.domains[e.1]? = some o →
      ∃ n : Domain, new = some n ∧ o.epoch ≤ n.epoch) hstep h id
  · exact absurd (hkept id (Table.mem_iff_get.mpr ⟨d, hd⟩)) (Table.not_mem_iff_get.mpr hnone)
  · obtain ⟨n, hn, hle⟩ := hold d hd
    exact ⟨n, hn, hle, fun hno => absurd trivial hno⟩

/-! ## What the operations do to unfenced outputs -/

/-- **An output that is not fenced** belongs to the current manager, and none of its domains is
quarantined. -/
def Unfenced (l : Ledger) : Prop :=
  ∀ x ∈ l.leases, x.outputSha256.isSome = true → x.outputFenced = false →
    x.token.managerEpoch = l.managerEpoch ∧
    ∀ r ∈ x.reservations, ∀ d : Domain, l.domains[r.domain]? = some d → d.quarantined = false

/-- What every operation keeps. -/
structure Carries (l l' : Ledger) : Prop where
  lineage : ∀ y ∈ l'.leases, (∃ x ∈ l.leases, x.token = y.token ∧ y.binding = x.binding) ∨
    l.generation < y.token.generation
  epochs : Calm everywhere l.domains l'.domains
  unfenced : l.Unfenced → l'.Unfenced

/-- The attributes of a lease that no operation writes. -/
structure SameIdentity (x y : Lease) : Prop where
  token : y.token = x.token
  binding : y.binding = x.binding
  reservations : y.reservations = x.reservations

theorem Carries.refl (l : Ledger) : Carries l l :=
  ⟨fun y hy => .inl ⟨y, hy, rfl, rfl⟩, Calm.refl _, id⟩

theorem lineage_map {f : Lease → Lease} (hleases : l'.leases = l.leases.map f)
    (hsame : ∀ x ∈ l.leases, SameIdentity x (f x)) :
    ∀ y ∈ l'.leases, (∃ x ∈ l.leases, x.token = y.token ∧ y.binding = x.binding) ∨
      l.generation < y.token.generation := by
  intro y hy
  rw [hleases] at hy
  obtain ⟨x, hx, rfl⟩ := List.mem_map.mp hy
  exact .inl ⟨x, hx, (hsame x hx).token.symm, (hsame x hx).binding⟩

/-- An operation that fences every output. -/
theorem Carries.of_fenced {f : Lease → Lease} (hleases : l'.leases = l.leases.map f)
    (hsame : ∀ x ∈ l.leases, SameIdentity x (f x)) (hepochs : Calm everywhere l.domains l'.domains)
    (hfenced : l'.OutputsFenced) : Carries l l' where
  lineage := lineage_map hleases hsame
  epochs := hepochs
  unfenced _ y hy hout hf := by
    rw [hfenced y hy hout] at hf
    cases hf

/-- An operation of the same manager that keeps or fences what was not fenced. -/
theorem Carries.of_map (hv : l.Valid) {f : Lease → Lease} {E : String → Prop}
    (hleases : l'.leases = l.leases.map f) (hsame : ∀ x ∈ l.leases, SameIdentity x (f x))
    (hmanager : l'.managerEpoch = l.managerEpoch) (hcalm : Calm E l.domains l'.domains)
    (hopen : ∀ x ∈ l.leases, (f x).outputSha256.isSome = true → (f x).outputFenced = false →
      x.outputSha256.isSome = true ∧ x.outputFenced = false ∧
        ∀ r ∈ x.reservations, ¬E r.domain) : Carries l l' where
  lineage := lineage_map hleases hsame
  epochs id d hd := by
    obtain ⟨d', hd', hle, -⟩ := hcalm id d hd
    exact ⟨d', hd', hle, fun hno => absurd trivial hno⟩
  unfenced h y hy hout hf := by
    rw [hleases] at hy
    obtain ⟨x, hx, rfl⟩ := List.mem_map.mp hy
    obtain ⟨hout', hf', hnot⟩ := hopen x hx hout hf
    obtain ⟨hman, hdomains⟩ := h x hx hout' hf'
    rw [(hsame x hx).token, (hsame x hx).reservations, hmanager]
    refine ⟨hman, fun r hr d' hd' => ?_⟩
    obtain ⟨d, hd⟩ := Table.mem_iff_get.mp ((hv.leaseOk hx).plan.each r hr).2.2
    obtain ⟨d₁, hd₁, -, hq⟩ := hcalm r.domain d hd
    rw [hd'] at hd₁
    cases hd₁
    rw [hq (hnot r hr)]
    exact hdomains r hr d hd

/-- One lease written in place, in the same domains. -/
theorem Carries.of_modify (hv : l.Valid) {p : Lease → Bool} {i : Nat} {t : Token}
    {f : Lease → Lease} (hp : ∀ x, p x = true → x.token = t) (hi : l.leases.findIdx? p = some i)
    (hsame : ∀ x ∈ l.leases, p x = true → SameIdentity x (f x))
    (hopen : ∀ x ∈ l.leases, p x = true → (f x).outputSha256.isSome = true →
      (f x).outputFenced = false → x.outputSha256.isSome = true ∧ x.outputFenced = false) :
    Carries l { l with leases := l.leases.modify i f } := by
  rw [hv.modify_leases hp hi]
  refine Carries.of_map hv (E := fun _ => False) rfl (fun x hx => ?_) rfl (Calm.refl _)
    fun x hx hout hf => ?_
  · split
    · rename_i hpx
      exact hsame x hx hpx
    · exact ⟨rfl, rfl, rfl⟩
  · split at hout
    · rename_i hpx
      rw [if_pos hpx] at hf
      obtain ⟨hout', hf'⟩ := hopen x hx hpx hout hf
      exact ⟨hout', hf', fun _ _ h => h⟩
    · rename_i hpx
      rw [if_neg hpx] at hf
      exact ⟨hout, hf, fun _ _ h => h⟩

/-- A new lease has no output yet. -/
theorem Carries.of_fresh (hv : l.Valid) {x : Lease} (hleases : l'.leases = l.leases ++ [x])
    (hgeneration : l.generation < x.token.generation) (hnone : x.outputSha256 = none)
    (hmanager : l'.managerEpoch = l.managerEpoch)
    (hcalm : Calm (fun _ => False) l.domains l'.domains) : Carries l l' where
  lineage y hy := by
    rw [hleases, List.mem_append, List.mem_singleton] at hy
    rcases hy with hy | rfl
    · exact .inl ⟨y, hy, rfl, rfl⟩
    · exact .inr hgeneration
  epochs := hcalm.of_forall
  unfenced hun y hy hout hf := by
    rw [hleases, List.mem_append, List.mem_singleton] at hy
    rcases hy with hy | rfl
    · obtain ⟨hman, hdomains⟩ := hun y hy hout hf
      refine ⟨hmanager ▸ hman, fun r hr d' hd' => ?_⟩
      obtain ⟨d, hd⟩ := Table.mem_iff_get.mp ((hv.leaseOk hy).plan.each r hr).2.2
      obtain ⟨d₁, hd₁, -, hq⟩ := hcalm r.domain d hd
      rw [hd'] at hd₁
      cases hd₁
      rw [hq (fun h => h)]
      exact hdomains r hr d hd
    · rw [hnone] at hout
      cases hout

end Ledger

theorem Lease.sameIdentity_drain (reason : String) (x : Lease) :
    Ledger.SameIdentity x (x.drain reason) := by
  unfold Lease.drain
  split
  · exact ⟨rfl, rfl, rfl⟩
  · exact ⟨rfl, rfl, rfl⟩

namespace Ledger

theorem SameIdentity.trans {x y z : Lease} (h : SameIdentity x y) (h' : SameIdentity y z) :
    SameIdentity x z :=
  ⟨h'.token.trans h.token, h'.binding.trans h.binding, h'.reservations.trans h.reservations⟩

/-! ### Operation by operation -/

variable {l : Ledger}

theorem carries_restart (epoch : String) (inventory : Table Domain) :
    Mut.Spec (restart epoch inventory) l fun _ l' => Carries l l' := by
  unfold restart
  refine Mut.spec_bind_get (Mut.spec_bind_lift fun _ _ => Mut.spec_bind_lift fun _ _ =>
    Mut.spec_bind_lift fun domains hdomains => Mut.spec_bind_lift fun _ _ => Mut.spec_set ?_)
  exact Carries.of_fenced (List.map_map ..) (fun x _ => (x.sameIdentity_drain _).trans ⟨rfl, rfl, rfl⟩)
    (calm_restartDomains hdomains) (outputsFenced_fenceOutputs _)

theorem carries_clearQuarantine (sha256 : Bytes → Vector UInt8 32) (review : String)
    (inventory : Table Domain) :
    Mut.Spec (clearQuarantine sha256 review inventory) l fun _ l' => Carries l l' := by
  unfold clearQuarantine
  refine Mut.spec_bind_get (Mut.spec_bind_lift fun _ _ =>
    Mut.spec_bind_lift fun domains hdomains => Mut.spec_bind_lift fun _ _ => Mut.spec_set ?_)
  exact Carries.of_fenced rfl (fun _ _ => ⟨rfl, rfl, rfl⟩) (calm_clearDomains hdomains)
    (outputsFenced_fenceOutputs _)

theorem carries_migrateInventory (sha256 : Bytes → Vector UInt8 32) (review epoch : String)
    (inventory : Table Domain) :
    Mut.Spec (migrateInventory sha256 review epoch inventory) l fun _ l' => Carries l l' := by
  unfold migrateInventory
  refine Mut.spec_bind_get (Mut.spec_bind_lift fun _ _ => Mut.spec_bind_lift fun _ hguard =>
    Mut.spec_bind_lift fun domains hdomains => Mut.spec_bind_lift fun _ _ => Mut.spec_set ?_)
  refine Carries.of_fenced rfl (fun _ _ => ⟨rfl, rfl, rfl⟩)
    (calm_migrateDomains (fun id hid => ?_) hdomains) (outputsFenced_fenceOutputs _)
  simp only [refuseIf_eq_ok, Bool.or_eq_false_iff, List.any_eq_false, Bool.not_eq_true',
    Bool.not_eq_false] at hguard
  exact Std.ExtTreeMap.contains_iff_mem.mp (hguard.2 id (Std.ExtTreeMap.mem_keys.mpr hid))

theorem carries_archive (sha256 : Bytes → Vector UInt8 32) (review epoch : String)
    (digest : Vector UInt8 32) :
    Mut.Spec (archive sha256 review epoch digest) l fun _ l' => Carries l l' := by
  unfold archive
  refine Mut.spec_bind_get (Mut.spec_bind_lift fun _ _ => Mut.spec_modify ?_)
  exact ⟨fun y hy => absurd hy List.not_mem_nil, Calm.refl _, fun _ y hy => absurd hy List.not_mem_nil⟩

/-- An admission replays, or appends a lease to a ledger of the same manager. -/
structure Appends (l l' : Ledger) : Prop where
  leases : l'.leases = l.leases ∨ ∃ x : Lease, l'.leases = l.leases ++ [x] ∧
    l.generation < x.token.generation ∧ x.outputSha256 = none
  domains : l'.domains = l.domains
  manager : l'.managerEpoch = l.managerEpoch

theorem appends_admitLease (owner : Owner) (request binding : String)
    (reservations : List Reservation) (now deadline : Nat) (random : Result (Vector UInt8 16)) :
    Mut.Spec (admitLease owner request binding reservations now deadline random) l
      fun _ l' => Appends l l' := by
  unfold admitLease
  refine Mut.spec_bind_get (Mut.spec_bind_lift fun _ _ => Mut.spec_bind_lift fun _ _ =>
    Mut.spec_bind_lift fun _ _ => ?_)
  split
  · exact Mut.spec_bind_lift fun _ _ => Mut.spec_bind_lift fun _ _ =>
      Mut.spec_pure ⟨.inl rfl, rfl, rfl⟩
  · refine Mut.spec_bind_lift fun _ _ => Mut.spec_bind_lift fun _ _ =>
      Mut.spec_bind_lift fun generation hgen => Mut.spec_bind_lift fun id _ =>
      Mut.spec_bind_lift fun _ _ => Mut.spec_bind_lift fun _ _ => Mut.spec_of_exec rfl ?_
    obtain ⟨rfl, -⟩ := checkedAdd_eq_ok.mp hgen
    exact ⟨.inr ⟨_, rfl, Nat.lt_succ_self _, rfl⟩, rfl, rfl⟩

theorem Carries.of_appends {domains : Table Domain} (hv : l.Valid)
    (hcalm : Calm (fun _ => False) l.domains domains)
    (h : Appends { l with domains } l') : Carries l l' := by
  have hcalm' : Calm (fun _ => False) l.domains l'.domains := h.domains ▸ hcalm
  rcases h.leases with hleases | ⟨x, hleases, hgeneration, hnone⟩
  · refine Carries.of_map hv (f := fun x => x) (hleases.trans (List.map_id _).symm)
      (fun _ _ => ⟨rfl, rfl, rfl⟩) h.manager hcalm' fun x _ hout hf => ⟨hout, hf, fun _ _ hn => hn⟩
  · exact Carries.of_fresh hv hleases hgeneration hnone h.manager hcalm'

theorem carries_admitLease (hv : l.Valid) (owner : Owner) (request binding : String)
    (reservations : List Reservation) (now deadline : Nat) (random : Result (Vector UInt8 16)) :
    Mut.Spec (admitLease owner request binding reservations now deadline random) l
      fun _ l' => Carries l l' :=
  (appends_admitLease ..).mono fun _ _ h => Carries.of_appends hv (Calm.refl _) h

theorem carries_admitReusingRetained (hv : l.Valid) (owner : Owner) (request binding : String)
    (reservations : List Reservation) (now deadline : Nat) (credits : Table Nat)
    (random : Result (Vector UInt8 16)) :
    Mut.Spec (admitReusingRetained owner request binding reservations now deadline credits random) l
      fun _ l' => Carries l l' := by
  unfold admitReusingRetained
  refine Mut.spec_bind_get ?_
  split
  · exact carries_admitLease hv ..
  · refine Mut.spec_bind_lift fun domains hdomains => ?_
    have hspec := appends_admitLease (l := { l with domains }) owner request binding reservations now
      deadline random
    rcases hexec : (admitLease owner request binding reservations now deadline random).exec
      { l with domains } with ⟨result, next⟩
    refine Mut.spec_bind_lift fun token htoken => Mut.spec_of_exec rfl ?_
    subst htoken
    exact Carries.of_appends hv (calm_debitCredits hdomains) (hspec.of_ok hexec)

theorem carries_renew (hv : l.Valid) (token : Token) (owner : Owner) (now deadline : Nat) :
    Mut.Spec (renew token owner now deadline) l fun _ l' => Carries l l' := by
  unfold renew
  refine Mut.spec_bind_get (Mut.spec_bind_lift fun _ _ => Mut.spec_bind_lift fun _ _ =>
    Mut.spec_bind_lift fun i hi => Mut.spec_modify ?_)
  refine Carries.of_modify hv (t := token) (fun x hx => ?_) (index_eq_ok.mp hi)
    (fun _ _ _ => ⟨rfl, rfl, rfl⟩) fun _ _ _ hout hf => ⟨hout, hf⟩
  rw [Bool.and_eq_true, beq_iff_eq] at hx
  exact hx.1

theorem sameIdentity_revokeLease (reason : String) (x : Lease) :
    SameIdentity x (revokeLease reason x) := by
  unfold revokeLease
  split
  · exact (x.sameIdentity_drain reason).trans ⟨rfl, rfl, rfl⟩
  · exact x.sameIdentity_drain reason

theorem revokeLease_outputSha256 (reason : String) (x : Lease) :
    (revokeLease reason x).outputSha256 = x.outputSha256 := by
  unfold revokeLease
  split
  · exact x.drain_outputSha256 reason
  · exact x.drain_outputSha256 reason

theorem carries_revoke (hv : l.Valid) (token : Token) (reason : String) :
    Mut.Spec (revoke token reason) l fun _ l' => Carries l l' := by
  unfold revoke
  refine Mut.spec_bind_get (Mut.spec_bind_lift fun _ _ => Mut.spec_bind_lift fun i hi =>
    Mut.spec_modify ?_)
  refine Carries.of_modify hv (t := token) (fun x hx => eq_of_beq hx) (okOr_eq_ok.mp hi)
    (fun x _ _ => sameIdentity_revokeLease reason x) fun x _ _ hout hf => ⟨?_, ?_⟩
  · rwa [revokeLease_outputSha256] at hout
  · by_contra hfenced
    rw [(evolves_revokeLease reason x).fenced (by simpa using hfenced)] at hf
    cases hf

theorem expireLease_outputSha256 (now : Nat) (x : Lease) :
    (expireLease now x).outputSha256 = x.outputSha256 := by
  unfold expireLease
  split
  · rfl
  · rfl

theorem carries_expire (hv : l.Valid) (now : Nat) :
    Mut.Spec (expire now) l fun _ l' => Carries l l' := by
  unfold expire
  refine Mut.spec_modify (Carries.of_map hv (E := fun _ => False) rfl (fun x _ => ?_) rfl
    (Calm.refl _) fun x hx hout hf => ⟨?_, ?_, fun _ _ h => h⟩)
  · unfold expireLease
    split
    · exact ⟨rfl, rfl, rfl⟩
    · exact ⟨rfl, rfl, rfl⟩
  · rwa [expireLease_outputSha256] at hout
  · by_contra hfenced
    rw [(evolves_expireLease (hv.leaseOk hx).fenceBacked).fenced (by simpa using hfenced)] at hf
    cases hf

theorem carries_observe (hv : l.Valid) (id : String) (used retained : Nat) :
    Mut.Spec (transaction (observe id used retained)) l fun _ l' => Carries l l' := by
  have hop : Mut.Spec (observe id used retained) l fun _ l' => Carries l l' := by
    unfold observe
    refine Mut.spec_bind_get (Mut.spec_bind_lift fun _ _ => Mut.spec_bind_lift fun d hd =>
      Mut.spec_bind_lift fun _ _ => Mut.spec_bind_lift fun _ _ =>
      Mut.spec_bind_lift fun load _ => Mut.spec_modify ?_)
    exact Carries.of_map hv (f := fun x => x) (List.map_id _).symm (fun _ _ => ⟨rfl, rfl, rfl⟩) rfl
      (Calm.insert (E := fun _ => False) (okOr_eq_ok.mp hd) (Nat.le_refl _) fun _ => rfl)
      fun x _ hout hf => ⟨hout, hf, fun _ _ hn => hn⟩
  exact (spec_transaction hop).mono fun _ _ h => h.1

theorem carries_quarantine (hv : l.Valid) (id reason : String) :
    Mut.Spec (quarantine id reason) l fun _ l' => Carries l l' := by
  unfold quarantine
  refine Mut.spec_bind_get (Mut.spec_bind_lift fun _ _ => Mut.spec_bind_lift fun d hd =>
    Mut.spec_bind_lift fun domains hdomains => Mut.spec_bind_lift fun _ _ => Mut.spec_set ?_)
  refine Carries.of_map hv rfl (fun x _ => ?_) rfl
    (calm_quarantineDomains (okOr_eq_ok.mp hd) hdomains) fun x hx hout hf => ?_
  · unfold quarantineLease
    split
    · exact (x.sameIdentity_drain reason).trans ⟨rfl, rfl, rfl⟩
    · exact ⟨rfl, rfl, rfl⟩
  · unfold quarantineLease at hout hf
    by_cases hany : (x.reservations.any fun r => r.domain == id) = true
    · rw [if_pos hany] at hout hf
      have hsome : x.outputSha256.isSome = true := x.drain_outputSha256 reason ▸ hout
      have hf : x.outputSha256.isSome = false := hf
      rw [hsome] at hf
      cases hf
    · rw [if_neg hany] at hout hf
      refine ⟨hout, hf, fun r hr he => hany ?_⟩
      exact List.any_eq_true.mpr ⟨r, hr, by simp [he]⟩

theorem carries_finishDraining (hv : l.Valid) (token : Token) (retained : Table Nat) :
    Mut.Spec (finishDraining token retained) l fun _ l' => Carries l l' := by
  unfold finishDraining
  refine Mut.spec_bind_get (Mut.spec_bind_lift fun i hi =>
    Mut.spec_bind_lift fun lease _ => Mut.spec_bind_lift fun _ _ =>
    Mut.spec_bind_lift fun _ _ => Mut.spec_bind_lift fun domains hdomains =>
    Mut.spec_bind_lift fun _ _ => Mut.spec_set ?_)
  refine Carries.of_map hv (hv.modify_leases (fun x hx => eq_of_beq hx) (okOr_eq_ok.mp hi) _)
    (fun x _ => ?_) rfl (calm_drainDomains hdomains) fun x _ hout hf => ?_
  · split
    · exact ⟨rfl, rfl, rfl⟩
    · exact ⟨rfl, rfl, rfl⟩
  · split at hout
    · rename_i hpx
      rw [if_pos hpx] at hf
      exact ⟨hout, hf, fun _ _ h => h⟩
    · rename_i hpx
      rw [if_neg hpx] at hf
      exact ⟨hout, hf, fun _ _ h => h⟩

/-- `assert_active` passes for the current manager and unquarantined domains only. -/
theorem assertActive_usable {token : Token} {owner : Owner} {now : Nat} {lease : Lease}
    (h : l.assertActive token owner now = .ok lease) :
    token.managerEpoch = l.managerEpoch ∧
      ∀ r ∈ lease.reservations, ∀ d : Domain, l.domains[r.domain]? = some d →
        d.quarantined = false := by
  unfold assertActive at h
  simp only [bind_eq_ok, pure_eq_ok, refuseIf_eq_ok, expect_eq_ok, Bool.or_eq_false_iff,
    bne_eq_false_iff_eq] at h
  obtain ⟨i, -, lease', -, _, ⟨⟨hman, -⟩, -⟩, _, hdomains, rfl⟩ := h
  refine ⟨hman, fun r hr d hd => ?_⟩
  have hr := forM_eq_ok.mp hdomains r hr
  simp only [bind_eq_ok, expect_eq_ok, refuseIf_eq_ok] at hr
  obtain ⟨d', hd', hq⟩ := hr
  rw [hd] at hd'
  cases hd'
  exact hq

theorem carries_completeOutput (hv : l.Valid) (token : Token) (owner : Owner) (now : Nat)
    (digest : String) :
    Mut.Spec (completeOutput token owner now digest) l fun _ l' => Carries l l' := by
  unfold completeOutput
  refine Mut.spec_bind_get (Mut.spec_bind_lift fun _ _ => Mut.spec_bind_lift fun active hactive =>
    Mut.spec_bind_lift fun _ _ => Mut.spec_bind_lift fun i hi =>
    Mut.spec_bind_lift fun lease hlease => Mut.spec_bind_lift fun epochs _ => ?_)
  split
  · exact Mut.spec_lift fun _ _ => Carries.refl l
  · have hidx := index_eq_ok.mp hi
    have htoken : ∀ x : Lease, (x.token == token && x.owner == owner) = true → x.token = token := by
      intro x hx
      rw [Bool.and_eq_true, beq_iff_eq] at hx
      exact hx.1
    obtain ⟨hmem, htok, -⟩ := assertActive_eq_ok hactive
    obtain ⟨hman, hdomains⟩ := assertActive_usable hactive
    refine Mut.spec_modify ⟨lineage_map (hv.modify_leases htoken hidx _) fun x _ => ?_,
      Calm.refl _, fun hun y hy hout hf => ?_⟩
    · split
      · exact ⟨rfl, rfl, rfl⟩
      · exact ⟨rfl, rfl, rfl⟩
    · rw [hv.modify_leases htoken hidx] at hy
      obtain ⟨x, hx, rfl⟩ := List.mem_map.mp hy
      by_cases hpx : (x.token == token && x.owner == owner) = true
      · -- the completed lease was just found active
        obtain rfl := hv.eq_of_token hx hmem ((htoken x hpx).trans htok.symm)
        rw [if_pos hpx]
        exact ⟨(congrArg Token.managerEpoch htok).trans hman, hdomains⟩
      · rw [if_neg hpx] at hout hf ⊢
        exact hun x hx hout hf

theorem carries_method (hv : l.Valid) (sha256 : Bytes → Vector UInt8 32) (op : Op) :
    Mut.Spec (op.method sha256) l fun _ l' => Carries l l' := by
  cases op with
  | restart => exact Mut.spec_bind_pure (carries_restart ..)
  | admitLease => exact Mut.spec_bind_pure (carries_admitLease hv ..)
  | admitReusingRetained => exact Mut.spec_bind_pure (carries_admitReusingRetained hv ..)
  | renew => exact Mut.spec_bind_pure (carries_renew hv ..)
  | completeOutput => exact Mut.spec_bind_pure (carries_completeOutput hv ..)
  | revoke => exact Mut.spec_bind_pure (carries_revoke hv ..)
  | expire => exact Mut.spec_bind_pure (carries_expire hv ..)
  | observe => exact Mut.spec_bind_pure (carries_observe hv ..)
  | quarantine => exact Mut.spec_bind_pure (carries_quarantine hv ..)
  | finishDraining => exact Mut.spec_bind_pure (carries_finishDraining hv ..)
  | clearQuarantine => exact Mut.spec_bind_pure (carries_clearQuarantine ..)
  | migrateInventory => exact Mut.spec_bind_pure (carries_migrateInventory ..)
  | archive => exact Mut.spec_bind_pure (carries_archive ..)

theorem step_carries (hv : l.Valid) (sha256 : Bytes → Vector UInt8 32) (op : Op) :
    Carries l (step sha256 l op) := by
  have hspec := carries_method hv sha256 op
  unfold step
  rcases hexec : (op.method sha256).exec l with ⟨e | r, l'⟩
  · rw [hspec.of_error hexec]
    exact Carries.refl l
  · exact hspec.of_ok hexec

/-! ## Over a run -/

theorem Calm.trans {t t' t'' : Table Domain} (h : Calm everywhere t t')
    (h' : Calm everywhere t' t'') : Calm everywhere t t'' := by
  intro id d hd
  obtain ⟨d', hd', hle, -⟩ := h id d hd
  obtain ⟨d'', hd'', hle', -⟩ := h' id d' hd'
  exact ⟨d'', hd'', Nat.le_trans hle hle', fun hno => absurd trivial hno⟩

theorem Carries.trans {l' l'' : Ledger} (h : Carries l l') (hgeneration : l.generation ≤ l'.generation)
    (h' : Carries l' l'') : Carries l l'' where
  lineage z hz := by
    rcases h'.lineage z hz with ⟨y, hy, ht, hb⟩ | hlt
    · rcases h.lineage y hy with ⟨x, hx, ht', hb'⟩ | hlt
      · exact .inl ⟨x, hx, ht'.trans ht, hb.trans hb'⟩
      · exact .inr (ht ▸ hlt)
    · exact .inr (Nat.lt_of_le_of_lt hgeneration hlt)
  epochs := h.epochs.trans h'.epochs
  unfenced := fun hun => h'.unfenced (h.unfenced hun)

theorem run_carries (hv : l.Valid) (sha256 : Bytes → Vector UInt8 32) (ops : List Op) :
    Carries l (run sha256 l ops) := by
  induction ops generalizing l with
  | nil => exact Carries.refl l
  | cons op ops ih =>
    obtain ⟨r, heffect⟩ := step_effect hv sha256 op
    exact (step_carries hv sha256 op).trans heffect.generation_le (ih heffect.valid)

/-- **An unfenced output is current** in every reachable ledger. -/
theorem run_unfenced (sha256 : Bytes → Vector UInt8 32) (ops : List Op) :
    (run sha256 empty ops).Unfenced :=
  (run_carries valid_empty sha256 ops).unfenced fun _ hx => absurd hx List.not_mem_nil

/-- The binding of a lease is never rewritten, nor is its token issued again. -/
theorem binding_of_run (hv : l.Valid) (sha256 : Bytes → Vector UInt8 32) (ops : List Op)
    {x y : Lease} (hx : x ∈ l.leases) (hy : y ∈ (run sha256 l ops).leases)
    (ht : y.token = x.token) : y.binding = x.binding := by
  rcases (run_carries hv sha256 ops).lineage y hy with ⟨z, hz, hzt, hb⟩ | hlt
  · rw [hb, hv.eq_of_token hz hx (hzt.trans ht)]
  · have hspent := (hv.leaseOk hx).generation
    rw [ht] at hlt
    exact absurd hlt (Nat.not_lt.mpr hspent)

/-- **A receipt granted later was good all along.** -/
theorem granted_of_run (hv : l.Valid) (hp : l.Paired) (hun : l.Unfenced)
    (sha256 : Bytes → Vector UInt8 32) (ops : List Op) {x y : Lease} {epochs : Table Nat}
    (hx : x ∈ l.leases) (hout : x.outputSha256.isSome = true) (ht : y.token = x.token)
    (h : Granted (run sha256 l ops) y epochs) : Granted l x epochs := by
  have hev := (run_descends hv (hv.descends hx) sha256 ops).leases y h.mem ht
  obtain ⟨snapshot, hsnapshot⟩ := Option.isSome_iff_exists.mp ((hp x hx).symm.trans hout)
  have hsame : snapshot = epochs := by
    have hy := hev.epochs snapshot hsnapshot
    rw [h.snapshot] at hy
    exact (Option.some.inj hy).symm
  subst hsame
  have hfenced : x.outputFenced = false := by
    by_contra hf
    have hy := hev.fenced (by simpa using hf)
    rw [h.fenced] at hy
    cases hy
  obtain ⟨hman, hdomains⟩ := hun x hx hout hfenced
  have hok := hv.leaseOk hx
  refine ⟨hx, hsnapshot, hev.owner ▸ h.root, hout, hman, fun r hr => ?_, fun id e he => ?_, hfenced⟩
  · obtain ⟨d, hd⟩ := Table.mem_iff_get.mp (hok.plan.each r hr).2.2
    exact ⟨d, hd, hdomains r hr d hd⟩
  · -- the snapshot is at most the epoch then, which is at most the epoch now
    obtain ⟨d, hd, -, hle, -⟩ := (hok.snapshot _ hsnapshot).each id e he
    obtain ⟨d', hd', hrise, -⟩ := (run_carries hv sha256 ops).epochs id d hd
    obtain ⟨d'', hd'', heq⟩ := h.current id e he
    rw [hd'] at hd''
    cases hd''
    exact ⟨d, hd, by omega⟩

/-! ## Interruptions -/

/-- What an operation aims at, for the lease with a token: a revocation for another reason than the
loss of its owner, its expiry, a quarantine of a domain it reserves, or an epoch cut. -/
def Op.aimsAt (l : Ledger) (token : Token) : Op → Prop
  | .restart .. | .clearQuarantine .. | .migrateInventory .. | .archive .. => True
  | .revoke target reason => target = token ∧ reason ≠ "owner-lost"
  | .expire now => ∃ x ∈ l.leases, x.token = token ∧ x.state = .active ∧ x.deadlineMs ≤ now
  | .quarantine id _ => ∃ x ∈ l.leases, x.token = token ∧ ∃ r ∈ x.reservations, r.domain = id
  | _ => False

/-- The operation succeeds and interrupts the lease. -/
def Interrupts (sha256 : Bytes → Vector UInt8 32) (l : Ledger) (token : Token) (op : Op) : Prop :=
  op.aimsAt l token ∧ ∃ r l', (op.method sha256).exec l = (.ok r, l')

/-- Every output under the token is fenced. -/
def FencedFor (token : Token) (l : Ledger) : Prop :=
  ∀ y ∈ l.leases, y.token = token → y.outputSha256.isSome = true → y.outputFenced = true

theorem OutputsFenced.fencedFor (h : l.OutputsFenced) (token : Token) : FencedFor token l :=
  fun y hy _ hout => h y hy hout

theorem fencedFor_revoke (hv : l.Valid) {token : Token} {reason : String}
    (hreason : reason ≠ "owner-lost") :
    Mut.Spec (revoke token reason) l fun _ l' => FencedFor token l' := by
  unfold revoke
  refine Mut.spec_bind_get (Mut.spec_bind_lift fun _ _ => Mut.spec_bind_lift fun i hi =>
    Mut.spec_modify fun y hy ht hout => ?_)
  have htoken : ∀ x : Lease, (x.token == token) = true → x.token = token := fun x hx => eq_of_beq hx
  rw [hv.modify_leases htoken (okOr_eq_ok.mp hi)] at hy
  obtain ⟨x, hx, rfl⟩ := List.mem_map.mp hy
  by_cases hpx : (x.token == token) = true
  · rw [if_pos hpx] at hout ⊢
    rw [revokeLease_outputSha256] at hout
    simp [revokeLease, hreason, hout]
  · rw [if_neg hpx] at ht
    exact absurd (beq_iff_eq.mpr ht) hpx

theorem fencedFor_expire (hv : l.Valid) {x : Lease} {now : Nat} (hx : x ∈ l.leases)
    (hactive : x.state = .active) (hdeadline : x.deadlineMs ≤ now) :
    Mut.Spec (expire now) l fun _ l' => FencedFor x.token l' := by
  unfold expire
  refine Mut.spec_modify fun y hy ht hout => ?_
  obtain ⟨z, hz, rfl⟩ := List.mem_map.mp hy
  have hzt : (expireLease now z).token = z.token := by
    unfold expireLease
    split
    · rfl
    · rfl
  obtain rfl := hv.eq_of_token hz hx (hzt.symm.trans ht)
  rw [expireLease_outputSha256] at hout
  simp [expireLease, hactive, hdeadline, hout]

theorem fencedFor_quarantine (hv : l.Valid) {x : Lease} {r : Reservation} {reason : String}
    (hx : x ∈ l.leases) (hr : r ∈ x.reservations) :
    Mut.Spec (quarantine r.domain reason) l fun _ l' => FencedFor x.token l' := by
  unfold quarantine
  refine Mut.spec_bind_get (Mut.spec_bind_lift fun _ _ => Mut.spec_bind_lift fun d _ =>
    Mut.spec_bind_lift fun domains _ => Mut.spec_bind_lift fun _ _ =>
    Mut.spec_set fun y hy ht hout => ?_)
  obtain ⟨z, hz, rfl⟩ := List.mem_map.mp hy
  have hzt : (quarantineLease r.domain reason z).token = z.token :=
    (evolves_quarantineLease (hv.leaseOk hz).fenceBacked).token
  obtain rfl := hv.eq_of_token hz hx (hzt.symm.trans ht)
  have hany : (z.reservations.any fun r' => r'.domain == r.domain) = true :=
    List.any_eq_true.mpr ⟨r, hr, by simp⟩
  unfold quarantineLease at hout ⊢
  rw [if_pos hany] at hout ⊢
  exact z.drain_outputSha256 reason ▸ hout

theorem fencedFor_of_interrupts (hv : l.Valid) {sha256 : Bytes → Vector UInt8 32} {token : Token}
    {op : Op} (h : Interrupts sha256 l token op) : FencedFor token (step sha256 l op) := by
  obtain ⟨haim, r, l', hexec⟩ := h
  have hstep : step sha256 l op = l' := congrArg Prod.snd hexec
  rw [hstep]
  refine Mut.Spec.of_ok (m := op.method sha256) (Q := fun _ l' => FencedFor token l') ?_ hexec
  cases op with
  | restart =>
    exact Mut.spec_bind_pure ((spec_restart ..).mono fun _ _ h => h.2.fencedFor token)
  | clearQuarantine =>
    exact Mut.spec_bind_pure ((spec_clearQuarantine ..).mono fun _ _ h => h.2.fencedFor token)
  | migrateInventory =>
    exact Mut.spec_bind_pure ((spec_migrateInventory ..).mono fun _ _ h => h.2.fencedFor token)
  | archive =>
    refine Mut.spec_bind_pure ((spec_archive hv ..).mono fun _ _ h y hy => ?_)
    rw [h.leases] at hy
    exact absurd hy List.not_mem_nil
  | revoke target reason =>
    obtain ⟨rfl, hreason⟩ := haim
    exact Mut.spec_bind_pure (fencedFor_revoke hv hreason)
  | expire now =>
    obtain ⟨x, hx, rfl, hactive, hdeadline⟩ := haim
    exact Mut.spec_bind_pure (fencedFor_expire hv hx hactive hdeadline)
  | quarantine id reason =>
    obtain ⟨x, hx, rfl, r, hr, rfl⟩ := haim
    exact Mut.spec_bind_pure (fencedFor_quarantine hv hx hr)
  | _ => cases haim

/-- A fenced output is never granted again. -/
theorem not_granted_of_fencedFor (hv : l.Valid) {sha256 : Bytes → Vector UInt8 32} {token : Token}
    {ops : List Op} {x y : Lease} {epochs : Table Nat} (hfenced : FencedFor token l)
    (hx : x ∈ l.leases) (hxt : x.token = token) (hout : x.outputSha256.isSome = true)
    (ht : y.token = token) : ¬Granted (run sha256 l ops) y epochs := by
  intro h
  have hev := (run_descends hv (hv.descends hx) sha256 ops).leases y h.mem (ht.trans hxt.symm)
  have hy := hev.fenced (hfenced x hx hxt hout)
  rw [h.fenced] at hy
  cases hy

theorem run_append (sha256 : Bytes → Vector UInt8 32) (l : Ledger) (xs ys : List Op) :
    run sha256 l (xs ++ ys) = run sha256 (run sha256 l xs) ys :=
  List.foldl_append

/-- A token that a run lost is not found later. -/
theorem exists_of_run (hv : l.Valid) {sha256 : Bytes → Vector UInt8 32} {ops : List Op}
    {x y : Lease} (hspent : x.token.generation ≤ l.generation)
    (hy : y ∈ (run sha256 l ops).leases) (ht : y.token = x.token) :
    ∃ z ∈ l.leases, z.token = x.token := by
  rcases (run_carries hv sha256 ops).lineage y hy with ⟨z, hz, hzt, -⟩ | hlt
  · exact ⟨z, hz, hzt.trans ht⟩
  · rw [ht] at hlt
    exact absurd hlt (Nat.not_lt.mpr hspent)

/-- **A refused receipt is refused forever**, and a granted one speaks for its lease. For a lease
with an output in any reachable ledger and any continuation of the run: if `committed_receipt`
refuses its token then it refuses it in the later ledger too, whatever manager epoch or quarantine
flags that ledger has; and if it grants it there, the receipt has the binding and the digest of the
lease and no operation of the continuation interrupted it. -/
theorem receipt_refused_forever (sha256 : Bytes → Vector UInt8 32) (before after : List Op)
    (x : Lease) (hx : x ∈ (run sha256 empty before).leases)
    (hout : x.outputSha256.isSome = true) :
    let l := run sha256 empty before
    let l' := run sha256 l after
    (l.Refuses x.token → l'.Refuses x.token) ∧
    ∀ v, l'.committedReceipt x.token = .ok v →
      (∃ y epochs, y ∈ l'.leases ∧ y.token = x.token ∧ v = receiptValue y epochs ∧
        y.binding = x.binding ∧ y.outputSha256 = x.outputSha256) ∧
      ∀ done op rest, after = done ++ op :: rest →
        ¬Interrupts sha256 (run sha256 l done) x.token op := by
  intro l l'
  have hv : l.Valid := run_valid valid_empty sha256 before
  have hp : l.Paired := run_paired valid_empty (fun _ hx => absurd hx List.not_mem_nil) sha256 before
  have hv' : l'.Valid := run_valid hv sha256 after
  refine ⟨fun hrefused => ?_, fun v hgranted => ?_⟩
  · refine (refuses_iff hv').mpr fun y epochs ht hy => ?_
    exact (refuses_iff hv).mp hrefused x epochs rfl
      (granted_of_run hv hp (run_unfenced sha256 before) sha256 after hx hout ht hy)
  · obtain ⟨y, epochs, ht, hy, rfl⟩ := (committedReceipt_eq_ok hv').mp hgranted
    have hdescends := run_descends hv (hv.descends hx) sha256
    obtain ⟨digest, hdigest⟩ := Option.isSome_iff_exists.mp hout
    refine ⟨⟨y, epochs, hy.mem, ht, rfl, binding_of_run hv sha256 after hx hy.mem ht, ?_⟩, ?_⟩
    · rw [hdigest]
      exact ((hdescends after).leases y hy.mem ht).output digest hdigest
    · rintro done op rest rfl hinterrupts
      have hvd := run_valid hv sha256 done
      have hfenced := fencedFor_of_interrupts hvd hinterrupts
      have hdone : Descends x (step sha256 (run sha256 l done) op) := by
        have h := hdescends (done ++ [op])
        rw [run_append] at h
        exact h
      have hl' : l' = run sha256 (step sha256 (run sha256 l done) op) rest :=
        run_append sha256 l done (op :: rest)
      have hvs := step_valid hvd sha256 op
      rw [hl'] at hy
      -- the lease is still there, with its output, and fenced
      obtain ⟨z, hz, hzt⟩ := exists_of_run hvs hdone.spent hy.mem ht
      have hzout : z.outputSha256.isSome = true := by
        rw [(hdone.leases z hz hzt).output digest hdigest]
        rfl
      exact not_granted_of_fencedFor hvs hfenced hz hzt hzout ht hy

/-- A root lease with an output, in the ledger of its manager. -/
def sampleRootOwner : Owner := ⟨0, 42, 7, "boot-1", 1, 9⟩

def sampleReceiptRun : List Op :=
  [.restart "manager-1" sampleInventory,
    .admitLease sampleRootOwner "request-1" (repeatText "a" 64) [⟨"ram", 40, 30⟩] 0 100
      (.ok (Vector.replicate 16 7)),
    .completeOutput sampleToken sampleRootOwner 50 (repeatText "b" 64)]

/-- The lease with its output, after `reason` drained it. -/
def sampleCompleted (state : State) (reason : String) (fenced : Bool) : Lease where
  token := sampleToken
  owner := sampleRootOwner
  request := "request-1"
  binding := repeatText "a" 64
  reservations := [⟨"ram", 40, 30⟩]
  deadlineMs := 100
  state := state
  reason := reason
  outputSha256 := some (repeatText "b" 64)
  outputDomainEpochs := some (Std.ExtTreeMap.ofList [("ram", 1)] compare)
  outputFenced := fenced

/-- A manager that returns under its old name does not bring the receipt back. -/
theorem receipt_refused_forever_returning :
    let sha256 : Bytes → Vector UInt8 32 := fun _ => Vector.replicate 32 0
    let before := sampleReceiptRun ++ [.restart "manager-2" sampleInventory]
    let l' := run sha256 (run sha256 empty before) [.restart "manager-1" sampleInventory]
    l'.Refuses sampleToken := by
  intro sha256 before l'
  have hmem : sampleCompleted .draining "manager-restart" true ∈
      (run sha256 empty before).leases := by decide +kernel
  have hv := run_valid valid_empty sha256 before
  refine (receipt_refused_forever sha256 before [.restart "manager-1" sampleInventory]
    _ hmem (by decide)).1 ((refuses_iff hv).mpr fun y epochs ht hy => ?_)
  obtain rfl := hv.eq_of_token hy.mem hmem ht
  exact absurd hy.fenced (by decide)

end Ledger

end LumaOS.Resources
