import LumaOS.Resources.Charge

/-!
# Validity of a ledger, declaratively

`Ledger::validate` is one pass with three loops and running accumulators. `Valid` says what it
accepts: bounds, well-formed domains, a strictly increasing archive chain, leases that are each
fine on their own (`LeaseOk`) and pairwise ordered and distinct (`LeaseLt`), and no overcommitted
domain outside quarantine. **`validate_eq_ok`** proves the two agree, so the operations are
verified against `Valid` and never unfold the loops again.

The accumulators enter only through `foldlM_pairwise`: the seen identifiers and requests are those
of the earlier leases, and comparing a generation with the previous one compares it with all.
-/

namespace LumaOS.Resources

open LumaOS.Base LumaOS.Text

/-- The checks on a lease that look at nothing but its own texts and numbers. -/
def Lease.wellFormed (lease : Lease) : Bool :=
  identifier lease.token.leaseId && identifier lease.token.managerEpoch &&
    identifier lease.request && identifier lease.owner.boot && lease.owner.pid != 0 &&
    lease.owner.startTicks != 0 && lease.owner.cgroupInode != 0 && lease.deadlineMs != 0 &&
    lease.binding.utf8ByteSize == 64 && lease.binding.toList.all asciiHexdigit &&
    identifier lease.reason

/-- `reservations_valid`: one to sixteen nonzero reservations in distinct known domains, in domain
order. -/
structure PlanOk (domains : Table Domain) (rs : List Reservation) : Prop where
  nonempty : rs ≠ []
  short : rs.length ≤ 16
  sorted : (rs.map (·.domain)).Pairwise (· < ·)
  each : ∀ r ∈ rs, "" < r.domain ∧ r.peak ≠ 0 ∧ r.domain ∈ domains

/-- An epoch snapshot: one past-or-present epoch for each reserved domain, present while the lease
is active. -/
structure SnapshotOk (domains : Table Domain) (lease : Lease) (epochs : Table Nat) : Prop where
  output : lease.outputSha256.isSome = true
  keys : epochs.keys = lease.reservations.map (·.domain)
  each : ∀ (id : String) (e : Nat), epochs[id]? = some e → ∃ d : Domain,
    domains[id]? = some d ∧ e ≠ 0 ∧ e ≤ d.epoch ∧ (lease.state = .active → e = d.epoch)

/-- One lease is fine in its ledger. -/
structure LeaseOk (l : Ledger) (lease : Lease) : Prop where
  wellFormed : lease.wellFormed = true
  generation : lease.token.generation ≤ l.generation
  fenced : lease.outputFenced = true → lease.outputSha256.isSome = true ∧ lease.state ≠ .active
  digest : ∀ d, lease.outputSha256 = some d → isHash d = true
  plan : PlanOk l.domains lease.reservations
  snapshot : ∀ epochs, lease.outputDomainEpochs = some epochs → SnapshotOk l.domains lease epochs
  current : lease.state = .active → lease.token.managerEpoch = l.managerEpoch

/-- An earlier and a later lease: increasing generation, distinct identifiers and requests. -/
structure LeaseLt (a b : Lease) : Prop where
  generation : a.token.generation < b.token.generation
  leaseId : a.token.leaseId ≠ b.token.leaseId
  request : (a.owner, a.request) ≠ (b.owner, b.request)

/-- The generation the archives reach, `0` without any. -/
def Ledger.archived (l : Ledger) : Nat := (l.archives.map (·.throughGeneration)).getLastD 0

/-- An initialized ledger. -/
structure Ledger.Ready (l : Ledger) : Prop where
  epoch : identifier l.managerEpoch = true
  inventory : l.domains.isEmpty = false
  domains : ∀ (id : String) (d : Domain), l.domains[id]? = some d →
    identifier id = true ∧ d.validate = .ok ()
  archives : ∀ a ∈ l.archives, a.throughGeneration ≤ l.generation ∧ isHash a.sha256 = true
  archiveChain : (0 :: l.archives.map (·.throughGeneration)).Pairwise (· < ·)
  leases : ∀ lease ∈ l.leases, LeaseOk l lease ∧ l.archived < lease.token.generation
  leaseChain : l.leases.Pairwise LeaseLt
  capacity : ∀ (id : String) (d : Domain), l.domains[id]? = some d →
    ∃ v, l.charged id = .ok v ∧ (v ≤ d.capacity - d.reserve ∨ d.quarantined = true)

/-- **What `Ledger::validate` accepts.** -/
structure Ledger.Valid (l : Ledger) : Prop where
  schema : l.schemaVersion = 1
  leases : l.leases.length ≤ maxRecords
  domains : l.domains.size ≤ 16
  archives : l.archives.length ≤ maxArchives
  fresh : l.managerEpoch = "" →
    l.generation = 0 ∧ l.domains = ∅ ∧ l.leases = [] ∧ l.archives = []
  ready : l.managerEpoch ≠ "" → l.Ready

namespace Ledger

/-! ## The loops -/

theorem reservationStep_eq_ok {l : Ledger} {last s : String} {r : Reservation} :
    l.reservationStep last r = .ok s ↔
      (last < r.domain ∧ r.peak ≠ 0 ∧ r.domain ∈ l.domains) ∧ s = r.domain := by
  unfold reservationStep
  rw [bind_eq_ok]
  simp only [refuseIf_eq_ok, pure_eq_ok, Bool.or_eq_false_iff, Bool.not_eq_false',
    decide_eq_true_eq, beq_eq_false_iff_ne, ne_eq, Std.ExtTreeMap.contains_iff_mem, exists_const]
  constructor
  · rintro ⟨⟨⟨h1, h2⟩, h3⟩, h4⟩
    exact ⟨⟨h1, h2, h3⟩, h4.symm⟩
  · rintro ⟨⟨h1, h2, h3⟩, h4⟩
    exact ⟨⟨⟨h1, h2⟩, h3⟩, h4.symm⟩

theorem reservationsValid_eq_ok {l : Ledger} {rs : List Reservation} {u : Unit} :
    l.reservationsValid rs = .ok u ↔ PlanOk l.domains rs := by
  have loop : ∀ s, rs.foldlM l.reservationStep "" = .ok s ↔
      (∀ r ∈ rs, "" < r.domain ∧ r.peak ≠ 0 ∧ r.domain ∈ l.domains) ∧
        rs.Pairwise (fun a b => a.domain < b.domain) ∧ s = (rs.map (·.domain)).getLastD "" := by
    intro s
    have := foldlM_pairwise (f := l.reservationStep)
      (S := fun past => (past.map (·.domain)).getLastD "")
      (P := fun r => "" < r.domain ∧ r.peak ≠ 0 ∧ r.domain ∈ l.domains)
      (R := fun a b => a.domain < b.domain) ?_ rs [] s (by simp) List.Pairwise.nil
    · simpa using this
    · intro past r s hP hR
      have hchain : ("" :: past.map (·.domain)).Pairwise (· < ·) := by
        rw [List.pairwise_cons, List.pairwise_map]
        exact ⟨by simpa using fun r hr => (hP r hr).1, hR⟩
      rw [reservationStep_eq_ok,
        getLastD_rel_iff (r := (· < ·)) (fun _ _ _ => String.lt_trans) hchain]
      simp only [List.mem_cons, List.mem_map, forall_eq_or_imp, forall_exists_index, and_imp,
        forall_apply_eq_imp_iff₂, List.map_append, List.map_cons, List.map_nil,
        List.getLastD_concat]
      tauto
  unfold reservationsValid
  simp only [bind_eq_ok, refuseIf_eq_ok, pure_eq_ok, loop, Bool.or_eq_false_iff,
    decide_eq_false_iff_not, Nat.not_lt, List.isEmpty_eq_false_iff, exists_const]
  constructor
  · rintro ⟨⟨h1, h2⟩, _, ⟨h3, h4, -⟩, -⟩
    exact ⟨h1, h2, List.pairwise_map.mpr h4, h3⟩
  · rintro ⟨h1, h2, h3, h4⟩
    exact ⟨⟨h1, h2⟩, _, ⟨h4, List.pairwise_map.mp h3, rfl⟩, trivial⟩

theorem outputEpochsValid_eq_ok {l : Ledger} {lease : Lease} {u : Unit} :
    l.outputEpochsValid lease = .ok u ↔
      ∀ epochs, lease.outputDomainEpochs = some epochs → SnapshotOk l.domains lease epochs := by
  unfold outputEpochsValid
  cases lease.outputDomainEpochs with
  | none => simp
  | some epochs =>
    simp only [bind_eq_ok, refuseIf_eq_ok, forM_eq_ok, expect_eq_ok, Bool.or_eq_false_iff,
      Option.isNone_eq_false_iff, bne_eq_false_iff_eq, Option.some.injEq, forall_eq',
      beq_eq_false_iff_ne, decide_eq_false_iff_not, Nat.not_lt, Bool.and_eq_false_iff,
      exists_const]
    constructor
    · rintro ⟨⟨h1, h2⟩, h3⟩
      refine ⟨h1, h2, fun id e he => ?_⟩
      obtain ⟨d, hd, ⟨h4, h5⟩, h6⟩ := h3 (id, e) (Table.mem_toList_iff_get.mpr he)
      exact ⟨d, hd, h4, h5, fun ha => h6.resolve_left fun hn => hn ha⟩
    · rintro ⟨h1, h2, h3⟩
      refine ⟨⟨h1, h2⟩, fun e he => ?_⟩
      obtain ⟨d, hd, h4, h5, h6⟩ := h3 e.1 e.2 (Table.mem_toList_iff_get.mp he)
      refine ⟨d, hd, ⟨h4, h5⟩, ?_⟩
      by_cases ha : lease.state = .active
      · exact Or.inr (h6 ha)
      · exact Or.inl ha

theorem archiveStep_eq_ok {l : Ledger} {previous n : Nat} {a : Archive} :
    l.archiveStep previous a = .ok n ↔
      (previous < a.throughGeneration ∧ a.throughGeneration ≤ l.generation ∧
        isHash a.sha256 = true) ∧ n = a.throughGeneration := by
  unfold archiveStep
  simp only [bind_eq_ok, refuseIf_eq_ok, pure_eq_ok, Bool.or_eq_false_iff, Bool.not_eq_false',
    decide_eq_false_iff_not, Nat.not_le, Nat.not_lt, exists_const]
  rw [eq_comm (a := n)]
  tauto

theorem archives_eq_ok {l : Ledger} {n : Nat} :
    l.archives.foldlM l.archiveStep 0 = .ok n ↔
      (∀ a ∈ l.archives, a.throughGeneration ≤ l.generation ∧ isHash a.sha256 = true) ∧
        (0 :: l.archives.map (·.throughGeneration)).Pairwise (· < ·) ∧ n = l.archived := by
  have loop := foldlM_pairwise (f := l.archiveStep)
    (S := fun past => (past.map (·.throughGeneration)).getLastD 0)
    (P := fun a => 0 < a.throughGeneration ∧ a.throughGeneration ≤ l.generation ∧
      isHash a.sha256 = true)
    (R := fun a b => a.throughGeneration < b.throughGeneration) ?_ l.archives [] n (by simp)
    List.Pairwise.nil
  · rw [List.pairwise_cons, List.pairwise_map]
    simp only [List.map_nil, List.getLastD_nil, List.nil_append] at loop
    rw [loop, archived]
    simp only [List.mem_map, forall_exists_index, and_imp, forall_apply_eq_imp_iff₂]
    constructor
    · rintro ⟨h1, h2, h3⟩
      exact ⟨fun a ha => (h1 a ha).2, ⟨fun a ha => (h1 a ha).1, h2⟩, h3⟩
    · rintro ⟨h1, ⟨h2, h3⟩, h4⟩
      exact ⟨fun a ha => ⟨h2 a ha, h1 a ha⟩, h3, h4⟩
  · intro past a s hP hR
    have hchain : (0 :: past.map (·.throughGeneration)).Pairwise (· < ·) := by
      rw [List.pairwise_cons, List.pairwise_map]
      exact ⟨by simpa using fun a ha => (hP a ha).1, hR⟩
    rw [archiveStep_eq_ok, getLastD_rel_iff (r := (· < ·)) (fun _ _ _ => Nat.lt_trans) hchain]
    simp only [List.mem_cons, List.mem_map, forall_eq_or_imp, forall_exists_index, and_imp,
      forall_apply_eq_imp_iff₂, List.map_append, List.map_cons, List.map_nil,
      List.getLastD_concat]
    tauto

/-- What the lease loop remembers after the leases `past`. -/
def seenAfter (l : Ledger) (past : List Lease) : Seen where
  ids := (past.map fun lease => lease.token.leaseId).reverse
  requests := (past.map fun lease => (lease.owner, lease.request)).reverse
  previous := (past.map fun lease => lease.token.generation).getLastD l.archived

theorem seenAfter_concat (l : Ledger) (past : List Lease) (lease : Lease) :
    l.seenAfter (past ++ [lease]) =
      { ids := lease.token.leaseId :: (l.seenAfter past).ids
        requests := (lease.owner, lease.request) :: (l.seenAfter past).requests
        previous := lease.token.generation } := by
  simp [seenAfter]

theorem leaseStep_eq_ok {l : Ledger} {seen next : Seen} {lease : Lease} :
    l.leaseStep seen lease = .ok next ↔
      (LeaseOk l lease ∧ lease.token.leaseId ∉ seen.ids ∧
        (lease.owner, lease.request) ∉ seen.requests ∧
        seen.previous < lease.token.generation) ∧
      next = { ids := lease.token.leaseId :: seen.ids
               requests := (lease.owner, lease.request) :: seen.requests
               previous := lease.token.generation } := by
  unfold leaseStep
  simp only [bind_eq_ok, refuseIf_eq_ok, pure_eq_ok, reservationsValid_eq_ok,
    outputEpochsValid_eq_ok, Bool.or_eq_false_iff, Bool.not_eq_false', Bool.and_eq_false_iff,
    decide_eq_false_iff_not, Nat.not_le, Nat.not_lt, beq_eq_false_iff_ne, bne_eq_false_iff_eq,
    List.contains_eq_mem, Option.isNone_eq_false_iff, exists_const, ne_eq]
  have hfenced : (lease.outputFenced = false ∨
      lease.outputSha256.isSome = true ∧ ¬lease.state = .active) ↔
      (lease.outputFenced = true → lease.outputSha256.isSome = true ∧ ¬lease.state = .active) := by
    cases lease.outputFenced <;> simp
  have hdigest : (lease.outputSha256.any fun digest => !isHash digest) = false ↔
      ∀ d, lease.outputSha256 = some d → isHash d = true := by
    cases lease.outputSha256 <;> simp
  rw [hfenced, hdigest, ← imp_iff_not_or, eq_comm (b := next)]
  constructor
  · rintro ⟨⟨⟨⟨⟨⟨⟨⟨⟨⟨⟨⟨⟨⟨⟨⟨⟨w1, hid⟩, w2⟩, hprev⟩, hgen⟩, w3⟩, w4⟩, w5⟩, w6⟩, w7⟩, w8⟩, w9⟩, w10⟩,
      w11⟩, hfence⟩, hhash⟩, hreq⟩, hplan, hsnap, hcur, rfl⟩
    refine ⟨⟨⟨?_, hgen, hfence, hhash, hplan, hsnap, hcur⟩, hid, hreq, hprev⟩, rfl⟩
    simp [Lease.wellFormed, w1, w2, w3, w4, w5, w6, w7, w8, w9, w10, w11]
  · rintro ⟨⟨⟨hwf, hgen, hfence, hhash, hplan, hsnap, hcur⟩, hid, hreq, hprev⟩, rfl⟩
    simp only [Lease.wellFormed, Bool.and_eq_true, bne_iff_ne, beq_iff_eq, ne_eq] at hwf
    obtain ⟨⟨⟨⟨⟨⟨⟨⟨⟨⟨w1, w2⟩, w3⟩, w4⟩, w5⟩, w6⟩, w7⟩, w8⟩, w9⟩, w10⟩, w11⟩ := hwf
    exact ⟨⟨⟨⟨⟨⟨⟨⟨⟨⟨⟨⟨⟨⟨⟨⟨⟨w1, hid⟩, w2⟩, hprev⟩, hgen⟩, w3⟩, w4⟩, w5⟩, w6⟩, w7⟩, w8⟩, w9⟩, w10⟩,
      w11⟩, hfence⟩, hhash⟩, hreq⟩, hplan, hsnap, hcur, rfl⟩

theorem leases_eq_ok {l : Ledger} {seen : Seen} :
    l.leases.foldlM l.leaseStep { ids := [], requests := [], previous := l.archived } = .ok seen ↔
      (∀ lease ∈ l.leases, LeaseOk l lease ∧ l.archived < lease.token.generation) ∧
        l.leases.Pairwise LeaseLt ∧ seen = l.seenAfter l.leases := by
  refine foldlM_pairwise (f := l.leaseStep) (S := l.seenAfter)
    (P := fun lease => LeaseOk l lease ∧ l.archived < lease.token.generation) (R := LeaseLt) ?_
    l.leases [] seen (by simp) List.Pairwise.nil
  intro past lease next hP hR
  have hchain : (l.archived :: past.map fun x => x.token.generation).Pairwise (· < ·) := by
    rw [List.pairwise_cons, List.pairwise_map]
    exact ⟨by simpa using fun x hx => (hP x hx).2, hR.imp LeaseLt.generation⟩
  have hprev := getLastD_rel_iff (r := (· < ·)) (fun _ _ _ => Nat.lt_trans)
    (n := lease.token.generation) hchain
  rw [leaseStep_eq_ok, seenAfter_concat]
  refine and_congr_left fun _ => ?_
  rw [show (l.seenAfter past).previous < lease.token.generation ↔ _ from hprev]
  simp only [seenAfter, List.mem_reverse, List.mem_map, not_exists, not_and, List.mem_cons,
    forall_eq_or_imp, forall_exists_index, and_imp, forall_apply_eq_imp_iff₂]
  constructor
  · rintro ⟨hok, hid, hreq, harch, hgen⟩
    exact ⟨⟨hok, harch⟩, fun y hy => ⟨hgen y hy, hid y hy, hreq y hy⟩⟩
  · rintro ⟨⟨hok, harch⟩, hlt⟩
    exact ⟨hok, fun y hy => (hlt y hy).leaseId, fun y hy => (hlt y hy).request, harch,
      fun y hy => (hlt y hy).generation⟩

/-! ## The whole check -/

theorem domainStep_eq_ok {e : String × Domain} {u : Unit} :
    domainStep e = .ok u ↔ identifier e.1 = true ∧ e.2.validate = .ok () := by
  unfold domainStep
  simp only [bind_eq_ok, refuseIf_eq_ok, Bool.not_eq_false', exists_const]

theorem domain_validate_eq_ok {d : Domain} {u : Unit} : d.validate = .ok u ↔
    d.reserve < d.capacity ∧ d.epoch ≠ 0 ∧ d.pressureEnter ≤ d.capacity ∧
      d.reserve < d.pressureEnter ∧ d.pressureExit ≤ d.pressureEnter ∧
      d.reserve ≤ d.pressureExit := by
  unfold Domain.validate
  simp only [refuseIf_eq_ok, Bool.or_eq_false_iff, beq_eq_false_iff_ne, decide_eq_false_iff_not,
    Nat.not_le, Nat.not_lt]
  omega

/-- The charge check of a domain whose reserve lies below its capacity. -/
theorem chargeStep_eq_ok {l : Ledger} {e : String × Domain} {u : Unit}
    (h : e.2.validate = .ok ()) : l.chargeStep e = .ok u ↔ ∃ v, l.charged e.1 = .ok v ∧
      (v ≤ e.2.capacity - e.2.reserve ∨ e.2.quarantined = true) := by
  have hle : e.2.reserve ≤ e.2.capacity := (domain_validate_eq_ok.mp h).1.le
  unfold chargeStep
  simp only [bind_eq_ok, minus_eq_ok, refuseIf_eq_ok, Bool.and_eq_false_iff,
    decide_eq_false_iff_not, Nat.not_lt, Bool.not_eq_false', hle, and_true, exists_eq_left]

theorem forM_toList_eq_ok {β : Type} {t : Table β} {f : String × β → Result Unit} {u : Unit} :
    t.toList.forM f = .ok u ↔ ∀ id b, t[id]? = some b → f (id, b) = .ok () := by
  rw [forM_eq_ok]
  constructor
  · exact fun h id b hb => h (id, b) (Table.mem_toList_iff_get.mpr hb)
  · exact fun h e he => h e.1 e.2 (Table.mem_toList_iff_get.mp he)

/-- **`validate` accepts exactly the valid ledgers.** -/
theorem validate_eq_ok {l : Ledger} {u : Unit} : l.validate = .ok u ↔ l.Valid := by
  unfold validate
  simp only [bind_eq_ok, refuseIf_eq_ok, Bool.or_eq_false_iff, bne_eq_false_iff_eq,
    decide_eq_false_iff_not, Nat.not_lt, exists_const]
  by_cases he : l.managerEpoch = ""
  · have hempty : l.managerEpoch.isEmpty = true := String.isEmpty_iff.mpr he
    simp only [hempty, if_true, refuseIf_eq_ok, Bool.or_eq_false_iff,
      bne_eq_false_iff_eq, Bool.not_eq_false', Std.ExtTreeMap.isEmpty_iff, List.isEmpty_iff]
    constructor
    · rintro ⟨⟨⟨⟨h1, h2⟩, h3⟩, h4⟩, ⟨⟨h5, h6⟩, h7⟩, h8⟩
      exact ⟨h1, h2, h3, h4, fun _ => ⟨h5, h6, h7, h8⟩, fun h => absurd he h⟩
    · rintro ⟨h1, h2, h3, h4, h5, -⟩
      obtain ⟨h5, h6, h7, h8⟩ := h5 he
      exact ⟨⟨⟨⟨h1, h2⟩, h3⟩, h4⟩, ⟨⟨h5, h6⟩, h7⟩, h8⟩
  · have hne : l.managerEpoch.isEmpty = false := by
      rw [← Bool.not_eq_true, String.isEmpty_iff]
      exact he
    simp only [hne, Bool.false_eq_true, if_false, bind_eq_ok, refuseIf_eq_ok,
      Bool.or_eq_false_iff, Bool.not_eq_false', exists_const, forM_toList_eq_ok,
      domainStep_eq_ok, archives_eq_ok]
    constructor
    · rintro ⟨⟨⟨⟨h1, h2⟩, h3⟩, h4⟩, ⟨h5, h6⟩, h7, _, ⟨h8, h9, rfl⟩, _, h10, h11⟩
      obtain ⟨h12, h13, -⟩ := leases_eq_ok.mp h10
      exact ⟨h1, h2, h3, h4, fun h => absurd h he,
        fun _ => ⟨h5, h6, h7, h8, h9, h12, h13,
          fun id d hd => (@chargeStep_eq_ok l (id, d) () (h7 id d hd).2).mp (h11 id d hd)⟩⟩
    · rintro ⟨h1, h2, h3, h4, -, hr⟩
      obtain ⟨h5, h6, h7, h8, h9, h12, h13, h11⟩ := hr he
      exact ⟨⟨⟨⟨h1, h2⟩, h3⟩, h4⟩, ⟨h5, h6⟩, h7, _, ⟨h8, h9, rfl⟩, _,
        leases_eq_ok.mpr ⟨h12, h13, rfl⟩,
        fun id d hd => (@chargeStep_eq_ok l (id, d) () (h7 id d hd).2).mpr (h11 id d hd)⟩

end Ledger

end LumaOS.Resources
