import LumaOS.Resources.DomainTables

/-!
# What each operation does to a valid ledger

One contract (`Mut.Spec`) for each operation: a failure leaves the ledger, a success has one of
six effects. Leases moved on and charges stayed (`Quiet`); one active lease with the next
generation was appended (`Fresh`), with or without a debit of retained bytes; one draining lease
was released (`Drained`); one domain was observed (`Observed`); the released leases were archived
(`Cut`). `spec_method` collects them as `Effect`, indexed by the operation, and every property of
runs is a case analysis on it.

* **`step_effect`**: every step from a valid ledger, failed ones included, has an effect.
* **`run_valid`**: validity is kept by whole runs. `renew`, `complete_output`, `revoke` and
  `expire` write in place and never validate; `Quiet.of_modify` and `Valid.map_leases` argue for
  them. The archive cut does not validate either.
-/

namespace LumaOS.Resources

open LumaOS.Base LumaOS.Text

namespace Ledger

/-! ## Quiet effects -/

/-- Leases moved on; none was admitted, released or forgotten, and every domain retains what it
retained. -/
structure Quiet (l l' : Ledger) : Prop where
  valid : l'.Valid
  generation : l'.generation = l.generation
  leases : ∃ f : Lease → Lease, l'.leases = l.leases.map f ∧
    ∀ x ∈ l.leases, Evolves x (f x) ∧ (f x).unreleased = x.unreleased
  domains : KeepsRetained l.domains l'.domains

/-- Every lease with an output is fenced. -/
def OutputsFenced (l : Ledger) : Prop :=
  ∀ x ∈ l.leases, x.outputSha256.isSome = true → x.outputFenced = true

theorem Quiet.refl {l : Ledger} (h : l.Valid) : Quiet l l where
  valid := h
  generation := rfl
  leases := ⟨id, by simp, fun x _ => ⟨Evolves.refl x, rfl⟩⟩
  domains := KeepsRetained.refl l.domains

theorem outputsFenced_fenceOutputs (l : Ledger) : l.fenceOutputs.OutputsFenced := by
  intro y hy hout
  obtain ⟨x, -, rfl⟩ := List.mem_map.mp hy
  exact Lease.fenced_fenceOutput hout

variable {l : Ledger}

/-- The leases of a validated copy: evolved one by one and charged as before. -/
theorem Quiet.of_validate {l l' : Ledger} {u : Unit} {f : Lease → Lease}
    (hvalid : l'.validate = .ok u) (hgen : l'.generation = l.generation)
    (hleases : l'.leases = l.leases.map f) (hev : ∀ x ∈ l.leases, Evolves x (f x))
    (hun : ∀ x, (f x).unreleased = x.unreleased) (hdom : KeepsRetained l.domains l'.domains) :
    Quiet l l' where
  valid := validate_eq_ok.mp hvalid
  generation := hgen
  leases := ⟨f, hleases, fun x hx => ⟨hev x hx, hun x⟩⟩
  domains := hdom

/-- One lease written in place. -/
theorem Quiet.of_modify (hv : l.Valid) {p : Lease → Bool} {i : Nat} {t : Token}
    {f : Lease → Lease} (hp : ∀ x, p x = true → x.token = t)
    (hi : l.leases.findIdx? p = some i)
    (hev : ∀ x ∈ l.leases, p x = true → Evolves x (f x))
    (hok : ∀ x ∈ l.leases, p x = true → LeaseOk l (f x))
    (hun : ∀ x ∈ l.leases, (f x).unreleased = x.unreleased) :
    Quiet l { l with leases := l.leases.modify i f } := by
  rw [hv.modify_leases hp hi]
  have hev' : ∀ x ∈ l.leases, Evolves x (if p x then f x else x) := by
    intro x hx
    split
    · exact hev x hx ‹_›
    · exact Evolves.refl x
  have hun' : ∀ x ∈ l.leases, (if p x then f x else x).unreleased = x.unreleased := by
    intro x hx
    split
    · exact hun x hx
    · rfl
  refine ⟨hv.map_leases hev' ?_ hun', rfl, ⟨_, rfl, fun x hx => ⟨hev' x hx, hun' x hx⟩⟩,
    KeepsRetained.refl _⟩
  intro x hx hokx
  split
  · exact hok x hx ‹_›
  · exact hokx

/-! ## Operations that validate a copy -/

theorem spec_restart (epoch : String) (inventory : Table Domain) :
    Mut.Spec (restart epoch inventory) l fun _ l' => Quiet l l' ∧ l'.OutputsFenced := by
  unfold restart
  refine Mut.spec_bind_get (Mut.spec_bind_lift fun _ _ => Mut.spec_bind_lift fun _ _ =>
    Mut.spec_bind_lift fun domains hdomains => Mut.spec_bind_lift fun _ hvalid =>
    Mut.spec_set ⟨?_, outputsFenced_fenceOutputs _⟩)
  refine Quiet.of_validate hvalid rfl (List.map_map ..) (fun x _ => ?_) (fun x => ?_)
    (restartDomains_keeps hdomains)
  · exact (x.evolves_drain _).trans (Lease.evolves_fenceOutput _)
  · exact (Lease.unreleased_fenceOutput _).trans (x.unreleased_drain _)

theorem spec_quarantine (hv : l.Valid) (id reason : String) :
    Mut.Spec (quarantine id reason) l fun _ l' => Quiet l l' := by
  unfold quarantine
  refine Mut.spec_bind_get (Mut.spec_bind_lift fun _ _ => Mut.spec_bind_lift fun d hd =>
    Mut.spec_bind_lift fun domains hdomains => Mut.spec_bind_lift fun _ hvalid => Mut.spec_set ?_)
  exact Quiet.of_validate hvalid rfl rfl
    (fun x hx => evolves_quarantineLease (hv.leaseOk hx).fenceBacked)
    (unreleased_quarantineLease id reason) (quarantineDomains_keeps (okOr_eq_ok.mp hd) hdomains)

theorem spec_clearQuarantine (sha256 : Bytes → Vector UInt8 32) (review : String)
    (inventory : Table Domain) :
    Mut.Spec (clearQuarantine sha256 review inventory) l
      fun _ l' => Quiet l l' ∧ l'.OutputsFenced := by
  unfold clearQuarantine
  refine Mut.spec_bind_get (Mut.spec_bind_lift fun _ _ =>
    Mut.spec_bind_lift fun domains hdomains => Mut.spec_bind_lift fun _ hvalid =>
    Mut.spec_set ⟨?_, outputsFenced_fenceOutputs _⟩)
  exact Quiet.of_validate hvalid rfl rfl (fun x _ => x.evolves_fenceOutput)
    Lease.unreleased_fenceOutput (clearDomains_keeps hdomains)

theorem spec_migrateInventory (sha256 : Bytes → Vector UInt8 32) (review epoch : String)
    (inventory : Table Domain) :
    Mut.Spec (migrateInventory sha256 review epoch inventory) l
      fun _ l' => Quiet l l' ∧ l'.OutputsFenced := by
  unfold migrateInventory
  refine Mut.spec_bind_get (Mut.spec_bind_lift fun _ _ => Mut.spec_bind_lift fun _ hguard =>
    Mut.spec_bind_lift fun domains hdomains => Mut.spec_bind_lift fun _ hvalid =>
    Mut.spec_set ⟨?_, outputsFenced_fenceOutputs _⟩)
  refine Quiet.of_validate hvalid rfl rfl (fun x _ => x.evolves_fenceOutput)
    Lease.unreleased_fenceOutput (migrateDomains_keeps (fun id hid => ?_) hdomains)
  -- the last guard: no domain of the old inventory is discarded
  simp only [refuseIf_eq_ok, Bool.or_eq_false_iff, List.any_eq_false, Bool.not_eq_true',
    Bool.not_eq_false] at hguard
  exact Std.ExtTreeMap.contains_iff_mem.mp (hguard.2 id (Std.ExtTreeMap.mem_keys.mpr hid))

/-! ## Operations that write in place -/

theorem index_eq_ok {token : Token} {owner : Owner} {i : Nat} :
    l.index token owner = .ok i ↔
      l.leases.findIdx? (fun x => x.token == token && x.owner == owner) = some i :=
  okOr_eq_ok

theorem spec_renew (hv : l.Valid) (token : Token) (owner : Owner) (now deadline : Nat) :
    Mut.Spec (renew token owner now deadline) l fun _ l' => Quiet l l' := by
  unfold renew
  refine Mut.spec_bind_get (Mut.spec_bind_lift fun _ _ => Mut.spec_bind_lift fun _ hdur =>
    Mut.spec_bind_lift fun i hi => Mut.spec_modify ?_)
  simp only [refuseIf_eq_ok, Bool.or_eq_false_iff, decide_eq_false_iff_not, Nat.not_le] at hdur
  refine Quiet.of_modify hv (t := token) (fun x hx => ?_) (index_eq_ok.mp hi)
    (fun x _ _ => { Evolves.refl x with })
    (fun x hx _ => (hv.leaseOk hx).renewed (by omega)) (fun _ _ => rfl)
  rw [Bool.and_eq_true, beq_iff_eq] at hx
  exact hx.1

theorem spec_revoke (hv : l.Valid) (token : Token) (reason : String) :
    Mut.Spec (revoke token reason) l fun _ l' => Quiet l l' := by
  unfold revoke
  refine Mut.spec_bind_get (Mut.spec_bind_lift fun _ hr => Mut.spec_bind_lift fun i hi =>
    Mut.spec_modify ?_)
  rw [refuseIf_eq_ok, Bool.not_eq_false'] at hr
  exact Quiet.of_modify hv (t := token) (fun x hx => eq_of_beq hx) (okOr_eq_ok.mp hi)
    (fun x _ _ => evolves_revokeLease reason x) (fun x hx _ => (hv.leaseOk hx).revokeLease hr)
    (fun x _ => unreleased_revokeLease reason x)

theorem spec_expire (hv : l.Valid) (now : Nat) :
    Mut.Spec (expire now) l fun _ l' => Quiet l l' := by
  unfold expire
  refine Mut.spec_modify ?_
  have hev : ∀ x ∈ l.leases, Evolves x (expireLease now x) := fun x hx =>
    evolves_expireLease (hv.leaseOk hx).fenceBacked
  exact ⟨hv.map_leases hev (fun x _ hx => hx.expireLease now)
    (fun x _ => unreleased_expireLease now x), rfl,
    ⟨_, rfl, fun x hx => ⟨hev x hx, unreleased_expireLease now x⟩⟩, KeepsRetained.refl _⟩

/-- The epochs `complete_output` records: the reserved domains' own, in domain order. -/
theorem currentEpochs_eq_ok {lease : Lease} {epochs : Table Nat}
    (hplan : PlanOk l.domains lease.reservations)
    (h : l.currentEpochs lease = .ok epochs) :
    epochs.keys = lease.reservations.map (·.domain) ∧
      ∀ (id : String) (e : Nat), epochs[id]? = some e →
        ∃ d : Domain, l.domains[id]? = some d ∧ e = d.epoch := by
  unfold currentEpochs at h
  obtain ⟨entries, hentries, h⟩ := bind_eq_ok.mp h
  obtain rfl := pure_eq_ok.mp h
  have hf : ∀ (r : Reservation) (e : String × Nat), (do
      let d ← expect l.domains[r.domain]? "no entry found for key"
      pure (r.domain, d.epoch) : Result (String × Nat)) = .ok e →
      e.1 = r.domain ∧ ∃ d : Domain, l.domains[r.domain]? = some d ∧ e.2 = d.epoch := by
    intro r e he
    simp only [bind_eq_ok, expect_eq_ok, pure_eq_ok] at he
    obtain ⟨d, hd, rfl⟩ := he
    exact ⟨rfl, d, hd, rfl⟩
  have hfst : entries.map Prod.fst = lease.reservations.map (·.domain) :=
    map_eq_of_mapM (fun r e he => (hf r e he).1) hentries
  have hsorted : (entries.map Prod.fst).Pairwise (· < ·) := hfst ▸ hplan.sorted
  refine ⟨(Table.keys_ofList hsorted).trans hfst, fun id e he => ?_⟩
  have hmem : id ∈ entries.map Prod.fst := by
    rw [← Table.keys_ofList hsorted, Table.mem_keys_iff_get]
    exact ⟨e, he⟩
  obtain ⟨entry, hentry, rfl⟩ := List.mem_map.mp hmem
  rw [Table.get_ofList hsorted hentry] at he
  cases he
  obtain ⟨r, -, hr⟩ := exists_of_mem_mapM hentries hentry
  obtain ⟨hdom, d, hd, hepoch⟩ := hf r entry hr
  exact ⟨d, hdom ▸ hd, hepoch⟩

theorem spec_completeOutput (hv : l.Valid) (token : Token) (owner : Owner) (now : Nat)
    (digest : String) :
    Mut.Spec (completeOutput token owner now digest) l fun _ l' => Quiet l l' := by
  unfold completeOutput
  refine Mut.spec_bind_get (Mut.spec_bind_lift fun _ _ => Mut.spec_bind_lift fun _ _ =>
    Mut.spec_bind_lift fun _ hdigest => Mut.spec_bind_lift fun i hi =>
    Mut.spec_bind_lift fun lease hlease => Mut.spec_bind_lift fun epochs hepochs => ?_)
  split
  · exact Mut.spec_lift fun _ _ => Quiet.refl hv
  · rename_i hnone
    have hidx := index_eq_ok.mp hi
    obtain ⟨hmem, hp⟩ := findIdx?_eq_some_get hidx (expect_eq_ok.mp hlease)
    have htoken : ∀ x : Lease, (x.token == token && x.owner == owner) = true → x.token = token := by
      intro x hx
      rw [Bool.and_eq_true, beq_iff_eq] at hx
      exact hx.1
    have hself : ∀ x ∈ l.leases, (x.token == token && x.owner == owner) = true → x = lease :=
      fun x hx hpx => hv.eq_of_token hx hmem ((htoken x hpx).trans (htoken lease hp).symm)
    obtain ⟨hkeys, heach⟩ := currentEpochs_eq_ok (hv.leaseOk hmem).plan hepochs
    refine Mut.spec_modify (Quiet.of_modify hv htoken hidx ?_ ?_ fun _ _ => rfl)
    · intro x hx hpx
      obtain rfl := hself x hx hpx
      refine { Evolves.refl x with output := ?_, epochs := ?_, paired := fun _ => rfl }
      · intro d hd
        rw [hnone] at hd
        cases hd
      · -- a snapshot without an output would not have validated
        intro e he
        have := ((hv.leaseOk hx).snapshot e he).output
        rw [hnone] at this
        cases this
    · intro x hx hpx
      obtain rfl := hself x hx hpx
      rw [refuseIf_eq_ok, Bool.not_eq_false'] at hdigest
      refine (hv.leaseOk hmem).completed hnone hdigest hkeys fun id e he => ?_
      obtain ⟨d, hd, rfl⟩ := heach id e he
      exact ⟨d, hd, hv.epoch_ne hd, rfl⟩

/-! ## Drainage, observation and the archive cut -/

/-- One draining lease was released; the others moved on as in a quiet step. -/
structure Drained (token : Token) (l l' : Ledger) : Prop where
  valid : l'.Valid
  generation : l'.generation = l.generation
  leases : ∃ f : Lease → Lease, l'.leases = l.leases.map f ∧
    ∀ x ∈ l.leases, Evolves x (f x) ∧ (x.token ≠ token → (f x).unreleased = x.unreleased)
  domains : ∀ id, id ∈ l.domains → id ∈ l'.domains

theorem spec_finishDraining (hv : l.Valid) (token : Token) (retained : Table Nat) :
    Mut.Spec (finishDraining token retained) l fun _ l' => Drained token l l' := by
  unfold finishDraining
  refine Mut.spec_bind_get (Mut.spec_bind_lift fun i hi =>
    Mut.spec_bind_lift fun lease hlease => Mut.spec_bind_lift fun _ hstate =>
    Mut.spec_bind_lift fun _ _ => Mut.spec_bind_lift fun domains hdomains =>
    Mut.spec_bind_lift fun _ hvalid => Mut.spec_set ?_)
  have hidx := okOr_eq_ok.mp hi
  have htoken : ∀ x : Lease, (x.token == token) = true → x.token = token := fun x => eq_of_beq
  obtain ⟨hmem, hp⟩ := findIdx?_eq_some_get hidx (expect_eq_ok.mp hlease)
  refine ⟨validate_eq_ok.mp hvalid, rfl, ⟨_, hv.modify_leases htoken hidx _, ?_⟩,
    fun id => drainDomains_persist hdomains⟩
  intro x hx
  split
  · rename_i hpx
    obtain rfl := hv.eq_of_token hx hmem ((htoken x hpx).trans (htoken lease hp).symm)
    rw [refuseIf_eq_ok, bne_eq_false_iff_eq] at hstate
    exact ⟨{ Evolves.refl x with state := by simp [hstate, State.rank] },
      fun hne => absurd (htoken x hpx) hne⟩
  · exact ⟨Evolves.refl x, fun _ => rfl⟩

theorem spec_transaction {α : Type} {operation : Mut Ledger α} {Q : α → Ledger → Prop}
    (h : Mut.Spec operation l Q) :
    Mut.Spec (transaction operation) l fun a l' => Q a l' ∧ l'.Valid := by
  unfold transaction
  refine Mut.spec_bind_get ?_
  rcases hexec : operation.exec l with ⟨result, next⟩
  refine Mut.spec_bind_lift fun a ha => Mut.spec_bind_lift fun _ hvalid => ?_
  subst ha
  exact Mut.spec_of_exec rfl ⟨h.of_ok hexec, validate_eq_ok.mp hvalid⟩

/-- An observation: only one domain's use, retained bytes and pressure change. -/
structure Observed (l l' : Ledger) : Prop where
  valid : l'.Valid
  generation : l'.generation = l.generation
  leases : l'.leases = l.leases
  domains : ∀ id, id ∈ l.domains → id ∈ l'.domains

theorem spec_observe (id : String) (used retained : Nat) :
    Mut.Spec (transaction (observe id used retained)) l fun _ l' => Observed l l' := by
  have hop : Mut.Spec (observe id used retained) l fun _ l' =>
      l'.generation = l.generation ∧ l'.leases = l.leases ∧
        ∀ k, k ∈ l.domains → k ∈ l'.domains := by
    unfold observe
    refine Mut.spec_bind_get (Mut.spec_bind_lift fun _ _ => Mut.spec_bind_lift fun _ _ =>
      Mut.spec_bind_lift fun _ _ => Mut.spec_bind_lift fun _ _ =>
      Mut.spec_bind_lift fun _ _ => Mut.spec_modify ⟨rfl, rfl, fun k hk => ?_⟩)
    exact Std.ExtTreeMap.mem_insert.mpr (Or.inr hk)
  exact (spec_transaction hop).mono fun _ _ h => ⟨h.2, h.1.1, h.1.2.1, h.1.2.2⟩

/-- The archive cut: every lease was released, and all of them leave the ledger. -/
structure Cut (l l' : Ledger) : Prop where
  valid : l'.Valid
  generation : l'.generation = l.generation
  released : ∀ x ∈ l.leases, x.state = .released
  leases : l'.leases = []
  domains : l'.domains = l.domains

theorem spec_archive (hv : l.Valid) (sha256 : Bytes → Vector UInt8 32) (review epoch : String)
    (digest : Vector UInt8 32) :
    Mut.Spec (archive sha256 review epoch digest) l fun _ l' => Cut l l' := by
  unfold archive
  refine Mut.spec_bind_get (Mut.spec_bind_lift fun _ hguard => Mut.spec_modify ?_)
  simp only [refuseIf_eq_ok, Bool.or_eq_false_iff, List.any_eq_false, decide_eq_false_iff_not,
    Nat.not_le, Bool.not_eq_false', bne_eq_false_iff_eq, List.isEmpty_eq_false_iff,
    bne_iff_ne, ne_eq, not_not, beq_eq_false_iff_ne] at hguard
  obtain ⟨⟨⟨⟨⟨-, hne⟩, hrel⟩, hlen⟩, hepoch⟩, -⟩ := hguard
  have hr : l.Ready := hv.ready fun he => hne (hv.fresh he).2.2.1
  have hchain : (0 :: (l.archives ++ [(⟨l.generation, hex digest.toList⟩ : Archive)]).map
      Archive.throughGeneration).Pairwise (· < ·) := by
    obtain ⟨x, hx⟩ := List.exists_mem_of_ne_nil _ hne
    obtain ⟨hok, hlt⟩ := hr.leases x hx
    have hall := (getLastD_rel_iff (r := (· < ·)) (fun _ _ _ => Nat.lt_trans)
      hr.archiveChain).mp (Nat.lt_of_lt_of_le hlt hok.generation)
    rw [List.map_append, ← List.cons_append, List.pairwise_append]
    exact ⟨hr.archiveChain, List.pairwise_singleton _ _, by simpa using hall⟩
  have hheld : ({ l with
      archives := l.archives ++ [⟨l.generation, hex digest.toList⟩]
      leases := []
      managerEpoch := epoch } : Ledger).held = l.held := by
    rw [held_eq_nil hrel]
    rfl
  refine ⟨⟨hv.schema, Nat.zero_le _, hv.domains, ?_, fun he => ?_, fun _ => ?_⟩, rfl, hrel, rfl,
    rfl⟩
  · rw [List.length_append, List.length_singleton]
    exact hlen
  · rw [show epoch = "" from he] at hepoch
    exact absurd hepoch (by decide)
  · refine ⟨hepoch, hr.inventory, hr.domains, ?_, hchain, nofun, List.Pairwise.nil, ?_⟩
    · intro a ha
      rcases List.mem_append.mp ha with ha | ha
      · exact hr.archives a ha
      · obtain rfl := List.mem_singleton.mp ha
        exact ⟨Nat.le_refl _, isHash_hex digest.length_toList⟩
    · intro id d hd
      rw [charged_congr (l := l) hheld rfl]
      exact hr.capacity id d hd


/-! ## Admission -/

/-- A fresh admission: the pair was unknown, and one active lease with the next generation was
appended. -/
structure Fresh (l : Ledger) (lease : Lease) (l' : Ledger) : Prop where
  valid : l'.Valid
  unseen : ∀ x ∈ l.leases, ¬(x.owner = lease.owner ∧ x.request = lease.request)
  active : lease.state = .active
  paired : lease.outputSha256.isSome = lease.outputDomainEpochs.isSome
  token : lease.token.generation = l.generation + 1
  generation : l'.generation = l.generation + 1
  leases : l'.leases = l.leases ++ [lease]

theorem spec_admitLease (owner : Owner) (request binding : String) (reservations : List Reservation)
    (now deadline : Nat) (random : Result (Vector UInt8 16)) :
    Mut.Spec (admitLease owner request binding reservations now deadline random) l fun token l' =>
      (l' = l ∧ l.Valid ∧
        ∃ old ∈ l.leases, old.owner = owner ∧ old.request = request ∧ token = old.token) ∨
      (Fresh l (freshLease token owner request binding reservations deadline) l' ∧
        l'.domains = l.domains) := by
  unfold admitLease
  refine Mut.spec_bind_get (Mut.spec_bind_lift fun _ hself => Mut.spec_bind_lift fun _ _ =>
    Mut.spec_bind_lift fun _ _ => ?_)
  split
  · rename_i old hold
    have hmatch := List.find?_some hold
    simp only [Bool.and_eq_true, beq_iff_eq] at hmatch
    exact Mut.spec_bind_lift fun _ _ => Mut.spec_bind_lift fun _ _ => Mut.spec_pure
      (Or.inl ⟨rfl, validate_eq_ok.mp hself, old, List.mem_of_find?_eq_some hold, hmatch.1,
        hmatch.2, rfl⟩)
  · rename_i hnone
    rw [List.find?_eq_none] at hnone
    refine Mut.spec_bind_lift fun _ _ => Mut.spec_bind_lift fun _ _ =>
      Mut.spec_bind_lift fun generation hgen => Mut.spec_bind_lift fun id _ =>
      Mut.spec_bind_lift fun _ _ => Mut.spec_bind_lift fun _ hvalid =>
      Mut.spec_of_exec rfl (Or.inr ⟨?_, rfl⟩)
    obtain rfl := (checkedAdd_eq_ok.mp hgen).1
    refine ⟨validate_eq_ok.mp hvalid, fun x hx => ?_, rfl, rfl, rfl, rfl, rfl⟩
    simpa [freshLease] using hnone x hx

theorem spec_admitReusingRetained (owner : Owner) (request binding : String)
    (reservations : List Reservation) (now deadline : Nat) (credits : Table Nat)
    (random : Result (Vector UInt8 16)) :
    Mut.Spec (admitReusingRetained owner request binding reservations now deadline credits random)
      l fun token l' =>
      (l' = l ∧ l.Valid ∧
        ∃ old ∈ l.leases, old.owner = owner ∧ old.request = request ∧ token = old.token) ∨
      (Fresh l (freshLease token owner request binding reservations deadline) l' ∧
        Debited reservations l.domains l'.domains) := by
  unfold admitReusingRetained
  refine Mut.spec_bind_get ?_
  split
  · refine (spec_admitLease ..).mono fun token l' h => h.imp id fun ⟨hfresh, hdom⟩ => ⟨hfresh, ?_⟩
    rw [hdom]
    exact fun id d hd => ⟨d, hd, Nat.le_refl _, Nat.le_add_right _ _⟩
  · rename_i hany
    refine Mut.spec_bind_lift fun domains hdomains => ?_
    have hspec := spec_admitLease (l := { l with domains }) owner request binding reservations now
      deadline random
    rcases hexec : (admitLease owner request binding reservations now deadline random).exec
      { l with domains } with ⟨result, next⟩
    refine Mut.spec_bind_lift fun token htoken => Mut.spec_of_exec rfl (Or.inr ?_)
    subst htoken
    obtain ⟨-, -, old, hold, howner, hrequest, -⟩ | ⟨hfresh, hdom⟩ := hspec.of_ok hexec
    · -- the pair is not in the ledger, so the copy's admission was no replay
      refine absurd (List.any_eq_true.mpr ⟨old, hold, ?_⟩) hany
      simp [howner, hrequest]
    · refine ⟨⟨hfresh.valid, hfresh.unseen, hfresh.active, hfresh.paired, hfresh.token,
        hfresh.generation, hfresh.leases⟩, ?_⟩
      rw [hdom]
      exact debitCredits_debited hdomains

/-! ## All operations -/

/-- **What a successful operation can have done**, by operation. `r` is the token it returned. -/
inductive Effect (l : Ledger) : Op → Option Token → Ledger → Prop
  | quiet {op r l'} : Quiet l l' → Effect l op r l'
  | admitted {owner request binding reservations now deadline random token l'} :
      Fresh l (freshLease token owner request binding reservations deadline) l' →
      l'.domains = l.domains →
      Effect l (.admitLease owner request binding reservations now deadline random) (some token) l'
  | reused {owner request binding reservations now deadline credits random token l'} :
      Fresh l (freshLease token owner request binding reservations deadline) l' →
      Debited reservations l.domains l'.domains →
      Effect l (.admitReusingRetained owner request binding reservations now deadline credits
        random) (some token) l'
  | drained {token retained r l'} : Drained token l l' →
      Effect l (.finishDraining token retained) r l'
  | observed {id used retained r l'} : Observed l l' → Effect l (.observe id used retained) r l'
  | cut {review epoch digest r l'} : Cut l l' → Effect l (.archive review epoch digest) r l'

theorem spec_method (hv : l.Valid) (sha256 : Bytes → Vector UInt8 32) (op : Op) :
    Mut.Spec (op.method sha256) l fun r l' => Effect l op r l' := by
  cases op with
  | restart epoch inventory =>
    exact Mut.spec_bind_pure ((spec_restart epoch inventory).mono fun _ _ h => .quiet h.1)
  | admitLease owner request binding reservations now deadline random =>
    refine Mut.spec_bind_pure ((spec_admitLease ..).mono fun token l' h => ?_)
    obtain ⟨rfl, -⟩ | ⟨hfresh, hdom⟩ := h
    · exact .quiet (Quiet.refl hv)
    · exact .admitted hfresh hdom
  | admitReusingRetained owner request binding reservations now deadline credits random =>
    refine Mut.spec_bind_pure ((spec_admitReusingRetained ..).mono fun token l' h => ?_)
    obtain ⟨rfl, -⟩ | ⟨hfresh, hdom⟩ := h
    · exact .quiet (Quiet.refl hv)
    · exact .reused hfresh hdom
  | renew token owner now deadline =>
    exact Mut.spec_bind_pure ((spec_renew hv ..).mono fun _ _ h => .quiet h)
  | completeOutput token owner now digest =>
    exact Mut.spec_bind_pure ((spec_completeOutput hv ..).mono fun _ _ h => .quiet h)
  | revoke token reason =>
    exact Mut.spec_bind_pure ((spec_revoke hv ..).mono fun _ _ h => .quiet h)
  | expire now => exact Mut.spec_bind_pure ((spec_expire hv now).mono fun _ _ h => .quiet h)
  | observe id used retained =>
    exact Mut.spec_bind_pure ((spec_observe ..).mono fun _ _ h => .observed h)
  | quarantine id reason =>
    exact Mut.spec_bind_pure ((spec_quarantine hv ..).mono fun _ _ h => .quiet h)
  | finishDraining token retained =>
    exact Mut.spec_bind_pure ((spec_finishDraining hv ..).mono fun _ _ h => .drained h)
  | clearQuarantine review inventory =>
    exact Mut.spec_bind_pure ((spec_clearQuarantine ..).mono fun _ _ h => .quiet h.1)
  | migrateInventory review epoch inventory =>
    exact Mut.spec_bind_pure ((spec_migrateInventory ..).mono fun _ _ h => .quiet h.1)
  | archive review epoch digest =>
    exact Mut.spec_bind_pure ((spec_archive hv ..).mono fun _ _ h => .cut h)

/-- One step of a run: an effect, the identity when the operation failed. -/
theorem step_effect (hv : l.Valid) (sha256 : Bytes → Vector UInt8 32) (op : Op) :
    ∃ r, Effect l op r (step sha256 l op) := by
  have hspec := spec_method hv sha256 op
  unfold step
  rcases hexec : (op.method sha256).exec l with ⟨e | r, l'⟩
  · rw [hspec.of_error hexec]
    exact ⟨none, .quiet (Quiet.refl hv)⟩
  · exact ⟨r, hspec.of_ok hexec⟩

theorem Effect.valid {op : Op} {r : Option Token} {l' : Ledger} (h : Effect l op r l') :
    l'.Valid := by
  cases h with
  | quiet h | admitted h _ | reused h _ | drained h | observed h | cut h => exact h.valid

theorem valid_empty : empty.Valid := (validate_eq_ok (u := ())).mp (by decide)

theorem step_valid (hv : l.Valid) (sha256 : Bytes → Vector UInt8 32) (op : Op) :
    (step sha256 l op).Valid := by
  obtain ⟨r, h⟩ := step_effect hv sha256 op
  exact h.valid

theorem run_valid (hv : l.Valid) (sha256 : Bytes → Vector UInt8 32) (ops : List Op) :
    (run sha256 l ops).Valid := by
  induction ops generalizing l with
  | nil => exact hv
  | cons op ops ih => exact ih (step_valid hv sha256 op)

end Ledger

end LumaOS.Resources
