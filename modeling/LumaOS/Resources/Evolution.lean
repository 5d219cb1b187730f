import LumaOS.Resources.Valid

/-!
# What an operation can do to a lease

Every operation that keeps a lease keeps its identity (token, owner, request, reservations), moves
its state only forward (`active`, `draining`, `released`), writes its output receipt at most once
and never lifts its fence: `Evolves`. `expire` and `quarantine` assign the fence instead of or-ing
it, so their cases need that a fenced lease has an output, which every valid ledger provides.

`Valid.map_leases` is the rule for the operations that write in place and never validate: a
leasewise update that evolves each lease, keeps it fine in its ledger and keeps it charged keeps
the ledger valid.
-/

namespace LumaOS.Resources

open LumaOS.Base LumaOS.Text

/-- The order of the lease states. -/
def State.rank : State → Nat
  | .active => 0
  | .draining => 1
  | .released => 2

/-- **One lease, earlier and later.** -/
structure Evolves (a b : Lease) : Prop where
  token : b.token = a.token
  owner : b.owner = a.owner
  request : b.request = a.request
  reservations : b.reservations = a.reservations
  state : a.state.rank ≤ b.state.rank
  output : ∀ d, a.outputSha256 = some d → b.outputSha256 = some d
  epochs : ∀ e, a.outputDomainEpochs = some e → b.outputDomainEpochs = some e
  fenced : a.outputFenced = true → b.outputFenced = true
  paired : a.outputSha256.isSome = a.outputDomainEpochs.isSome →
    b.outputSha256.isSome = b.outputDomainEpochs.isSome

namespace Evolves

variable {a b c : Lease}

theorem refl (a : Lease) : Evolves a a where
  token := rfl
  owner := rfl
  request := rfl
  reservations := rfl
  state := Nat.le_refl _
  output := fun _ h => h
  epochs := fun _ h => h
  fenced := fun h => h
  paired := fun h => h

theorem trans (hab : Evolves a b) (hbc : Evolves b c) : Evolves a c where
  token := hbc.token.trans hab.token
  owner := hbc.owner.trans hab.owner
  request := hbc.request.trans hab.request
  reservations := hbc.reservations.trans hab.reservations
  state := Nat.le_trans hab.state hbc.state
  output := fun d h => hbc.output d (hab.output d h)
  epochs := fun e h => hbc.epochs e (hab.epochs e h)
  fenced := fun h => hbc.fenced (hab.fenced h)
  paired := fun h => hbc.paired (hab.paired h)

/-- A lease that left `active` does not come back. -/
theorem ne_active (h : Evolves a b) (ha : a.state ≠ .active) : b.state ≠ .active := by
  have := h.state
  intro hb
  rw [hb] at this
  cases hs : a.state <;> simp_all [State.rank]

theorem released (h : Evolves a b) (ha : a.state = .released) : b.state = .released := by
  have := h.state
  rw [ha] at this
  cases hs : b.state <;> simp_all [State.rank]

theorem leaseLt {a' b' : Lease} (ha : Evolves a a') (hb : Evolves b b') (h : LeaseLt a b) :
    LeaseLt a' b' := by
  obtain ⟨h1, h2, h3⟩ := h
  constructor
  · rwa [ha.token, hb.token]
  · rwa [ha.token, hb.token]
  · rwa [ha.owner, ha.request, hb.owner, hb.request]

end Evolves

/-! ## The leasewise updates -/

namespace Lease

theorem evolves_drain (reason : String) (a : Lease) : Evolves a (a.drain reason) := by
  unfold drain
  split
  · rename_i ha
    rw [beq_iff_eq] at ha
    exact { Evolves.refl a with state := by simp [ha, State.rank] }
  · exact Evolves.refl a

theorem unreleased_drain (reason : String) (a : Lease) :
    (a.drain reason).unreleased = a.unreleased := by
  unfold drain unreleased
  split
  · rename_i ha
    rw [eq_of_beq ha]
    rfl
  · rfl

theorem drain_outputFenced (reason : String) (a : Lease) :
    (a.drain reason).outputFenced = a.outputFenced := by
  unfold drain
  split <;> rfl

theorem drain_outputSha256 (reason : String) (a : Lease) :
    (a.drain reason).outputSha256 = a.outputSha256 := by
  unfold drain
  split <;> rfl

theorem drain_state_ne (reason : String) (a : Lease) : (a.drain reason).state ≠ .active := by
  unfold drain
  split
  · nofun
  · rename_i ha
    exact fun h => ha (beq_iff_eq.mpr h)

theorem evolves_fenceOutput (a : Lease) : Evolves a a.fenceOutput :=
  { Evolves.refl a with fenced := fun h => by simp [fenceOutput, h] }

theorem unreleased_fenceOutput (a : Lease) : a.fenceOutput.unreleased = a.unreleased := rfl

/-- After `fence_outputs` every output is fenced. -/
theorem fenced_fenceOutput {a : Lease} (h : a.fenceOutput.outputSha256.isSome = true) :
    a.fenceOutput.outputFenced = true := by
  have : a.outputSha256.isSome = true := h
  simp [fenceOutput, this]

end Lease

/-- A fenced lease has an output. -/
def Lease.FenceBacked (a : Lease) : Prop :=
  a.outputFenced = true → a.outputSha256.isSome = true

theorem LeaseOk.fenceBacked {l : Ledger} {a : Lease} (h : LeaseOk l a) : a.FenceBacked :=
  fun hf => (h.fenced hf).1

namespace Ledger

variable {a : Lease} {now : Nat} {id reason : String}

theorem evolves_revokeLease (reason : String) (a : Lease) : Evolves a (revokeLease reason a) := by
  unfold revokeLease
  split
  · exact (a.evolves_drain reason).trans { Evolves.refl _ with fenced := fun _ => rfl }
  · exact a.evolves_drain reason

theorem unreleased_revokeLease (reason : String) (a : Lease) :
    (revokeLease reason a).unreleased = a.unreleased := by
  unfold revokeLease
  split <;> exact a.unreleased_drain reason

theorem evolves_expireLease (h : a.FenceBacked) : Evolves a (expireLease now a) := by
  unfold expireLease
  split
  · rename_i ha
    simp only [Bool.and_eq_true, beq_iff_eq] at ha
    exact { Evolves.refl a with state := by simp [ha.1, State.rank], fenced := h }
  · exact Evolves.refl a

theorem unreleased_expireLease (now : Nat) (a : Lease) :
    (expireLease now a).unreleased = a.unreleased := by
  unfold expireLease Lease.unreleased
  split
  · rename_i ha
    simp only [Bool.and_eq_true, beq_iff_eq] at ha
    rw [ha.1]
    rfl
  · rfl

theorem evolves_quarantineLease (h : a.FenceBacked) : Evolves a (quarantineLease id reason a) := by
  unfold quarantineLease
  split
  · refine (a.evolves_drain reason).trans { Evolves.refl _ with fenced := fun hf => h ?_ }
    rwa [a.drain_outputFenced] at hf
  · exact Evolves.refl a

theorem unreleased_quarantineLease (id reason : String) (a : Lease) :
    (quarantineLease id reason a).unreleased = a.unreleased := by
  unfold quarantineLease
  split
  · exact a.unreleased_drain reason
  · rfl

end Ledger

/-! ## Leases that stay fine -/

namespace LeaseOk

variable {l : Ledger} {a : Lease} {reason : String}

/-- Draining with the fence set to `b`, which an output has to back. -/
theorem draining (h : LeaseOk l a) (hr : identifier reason = true) {b : Bool}
    (hb : b = true → a.outputSha256.isSome = true) :
    LeaseOk l { a with state := .draining, reason := reason, outputFenced := b } where
  wellFormed := by
    have := h.wellFormed
    unfold Lease.wellFormed at *
    rw [Bool.and_eq_true] at this ⊢
    exact ⟨this.1, hr⟩
  generation := h.generation
  fenced := fun hf => ⟨hb hf, nofun⟩
  digest := h.digest
  plan := h.plan
  snapshot := fun epochs he => by
    obtain ⟨h1, h2, h3⟩ := h.snapshot epochs he
    refine ⟨h1, h2, fun id e hide => ?_⟩
    obtain ⟨d, hd, hne, hle, -⟩ := h3 id e hide
    exact ⟨d, hd, hne, hle, nofun⟩
  current := nofun

theorem drain (h : LeaseOk l a) (hr : identifier reason = true) : LeaseOk l (a.drain reason) := by
  unfold Lease.drain
  split
  · exact h.draining hr h.fenceBacked
  · exact h

theorem fence (h : LeaseOk l a) (hout : a.outputSha256.isSome = true) (hs : a.state ≠ .active) :
    LeaseOk l { a with outputFenced := true } :=
  ⟨h.wellFormed, h.generation, fun _ => ⟨hout, hs⟩, h.digest, h.plan,
    fun epochs he => ⟨(h.snapshot epochs he).output, (h.snapshot epochs he).keys,
      (h.snapshot epochs he).each⟩, h.current⟩

theorem revokeLease (h : LeaseOk l a) (hr : identifier reason = true) :
    LeaseOk l (Ledger.revokeLease reason a) := by
  unfold Ledger.revokeLease
  split
  · rename_i hc
    rw [Bool.and_eq_true] at hc
    exact (h.drain hr).fence (by rw [a.drain_outputSha256, hc.2]) (a.drain_state_ne reason)
  · exact h.drain hr

theorem expireLease (h : LeaseOk l a) (now : Nat) : LeaseOk l (Ledger.expireLease now a) := by
  unfold Ledger.expireLease
  split
  · exact h.draining (by decide) fun hb => hb
  · exact h

theorem renewed (h : LeaseOk l a) {deadline : Nat} (hd : deadline ≠ 0) :
    LeaseOk l { a with deadlineMs := deadline } where
  wellFormed := by
    have := h.wellFormed
    simp only [Lease.wellFormed, Bool.and_eq_true, bne_iff_ne, beq_iff_eq] at this ⊢
    tauto
  generation := h.generation
  fenced := h.fenced
  digest := h.digest
  plan := h.plan
  snapshot := fun epochs he => ⟨(h.snapshot epochs he).output, (h.snapshot epochs he).keys,
    (h.snapshot epochs he).each⟩
  current := h.current

/-- A first output with the current epoch of every reserved domain. -/
theorem completed (h : LeaseOk l a) {digest : String} {epochs : Table Nat}
    (hnone : a.outputSha256 = none) (hd : isHash digest = true)
    (hkeys : epochs.keys = a.reservations.map (·.domain))
    (heach : ∀ (id : String) (e : Nat), epochs[id]? = some e →
      ∃ d : Domain, l.domains[id]? = some d ∧ e ≠ 0 ∧ e = d.epoch) :
    LeaseOk l { a with outputSha256 := some digest, outputDomainEpochs := some epochs } where
  wellFormed := h.wellFormed
  generation := h.generation
  fenced := fun hf => by
    have := h.fenceBacked hf
    rw [hnone] at this
    cases this
  digest := fun d hd' => by
    cases hd'
    exact hd
  plan := h.plan
  snapshot := fun e he => by
    cases he
    refine ⟨rfl, hkeys, fun id e he => ?_⟩
    obtain ⟨d, hd, hne, rfl⟩ := heach id e he
    exact ⟨d, hd, hne, Nat.le_refl _, fun _ => rfl⟩
  current := h.current

end LeaseOk

/-! ## Updating the leases of a valid ledger -/

/-- A lease judged in a ledger with other leases but the same domains and counters. -/
theorem LeaseOk.of_leases {l : Ledger} {xs : List Lease} {a : Lease} (h : LeaseOk l a) :
    LeaseOk { l with leases := xs } a :=
  ⟨h.wellFormed, h.generation, h.fenced, h.digest, h.plan, h.snapshot, h.current⟩

namespace Ledger

/-- **Writing leases in place.** -/
theorem Valid.map_leases {l : Ledger} {f : Lease → Lease} (h : l.Valid)
    (hev : ∀ x ∈ l.leases, Evolves x (f x)) (hok : ∀ x ∈ l.leases, LeaseOk l x → LeaseOk l (f x))
    (hun : ∀ x ∈ l.leases, (f x).unreleased = x.unreleased) :
    { l with leases := l.leases.map f }.Valid where
  schema := h.schema
  leases := by simpa using h.leases
  domains := h.domains
  archives := h.archives
  fresh := fun he => by
    obtain ⟨h1, h2, h3, h4⟩ := h.fresh he
    exact ⟨h1, h2, by simp [h3], h4⟩
  ready := fun he => by
    obtain hr := h.ready he
    refine ⟨hr.epoch, hr.inventory, hr.domains, hr.archives, hr.archiveChain, ?_, ?_, ?_⟩
    · rintro y hy
      obtain ⟨x, hx, rfl⟩ := List.mem_map.mp hy
      obtain ⟨hx1, hx2⟩ := hr.leases x hx
      refine ⟨(hok x hx hx1).of_leases, ?_⟩
      rw [(hev x hx).token]
      exact hx2
    · rw [List.pairwise_map]
      exact hr.leaseChain.imp_of_mem fun ha hb hab => (hev _ ha).leaseLt (hev _ hb) hab
    · intro id d hd
      have hheld : ({ l with leases := l.leases.map f } : Ledger).held = l.held :=
        held_map (fun x hx => (hev x hx).reservations) hun
      rw [charged_congr (l := l) hheld rfl]
      exact hr.capacity id d hd

theorem Valid.leaseOk {l : Ledger} (h : l.Valid) {x : Lease} (hx : x ∈ l.leases) : LeaseOk l x := by
  by_cases he : l.managerEpoch = ""
  · rw [(h.fresh he).2.2.1] at hx
    exact absurd hx List.not_mem_nil
  · exact ((h.ready he).leases x hx).1

theorem Valid.ready_of_get {l : Ledger} (h : l.Valid) {id : String} {d : Domain}
    (hd : l.domains[id]? = some d) : l.Ready := by
  refine h.ready fun he => ?_
  rw [(h.fresh he).2.1] at hd
  simp at hd

theorem Valid.epoch_ne {l : Ledger} (h : l.Valid) {id : String} {d : Domain}
    (hd : l.domains[id]? = some d) : d.epoch ≠ 0 := by
  have := ((h.ready_of_get hd).domains id d hd).2
  simp only [Domain.validate, refuseIf_eq_ok, Bool.or_eq_false_iff, beq_eq_false_iff_ne] at this
  exact this.1.1.1.1.2

theorem Valid.leaseChain {l : Ledger} (h : l.Valid) : l.leases.Pairwise LeaseLt := by
  by_cases he : l.managerEpoch = ""
  · rw [(h.fresh he).2.2.1]
    exact List.Pairwise.nil
  · exact (h.ready he).leaseChain

theorem Valid.nodup_tokens {l : Ledger} (h : l.Valid) : (l.leases.map (·.token)).Nodup := by
  rw [List.Nodup, List.pairwise_map]
  refine h.leaseChain.imp ?_
  intro a b hab he
  exact Nat.ne_of_lt hab.generation (by rw [he])

theorem Valid.eq_of_token {l : Ledger} (h : l.Valid) {x y : Lease} (hx : x ∈ l.leases)
    (hy : y ∈ l.leases) (ht : x.token = y.token) : x = y :=
  List.inj_on_of_nodup_map h.nodup_tokens hx hy ht

/-- The write through the first lease with a token is the leasewise write. -/
theorem Valid.modify_leases {l : Ledger} (h : l.Valid) {p : Lease → Bool} {i : Nat}
    {token : Token} (hp : ∀ x, p x = true → x.token = token) (hi : l.leases.findIdx? p = some i)
    (f : Lease → Lease) :
    l.leases.modify i f = l.leases.map fun x => if p x then f x else x :=
  modify_eq_map f (atMostOne_of_nodup_map h.nodup_tokens hp) hi

end Ledger

end LumaOS.Resources
