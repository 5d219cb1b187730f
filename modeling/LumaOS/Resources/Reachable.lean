import LumaOS.Resources.Effect

/-!
# Every reachable ledger

What holds of every ledger a run from `Ledger::empty` can reach, whatever the operations, their
order and their arguments, and whether they succeed.

* **`run_accounted`**: it passes `validate`, and so no unquarantined domain is overcommitted,
  generations, identifiers and requests are distinct, active leases belong to the current manager
  and their outputs to the current domain epochs. The last part needs more than `validate`, which
  accepts an output without a snapshot: no operation writes one without the other (`Paired`).
* **`run_authority_one_way`**: a lease that left `active` never has authority again, receipts are
  written once, fences are never lifted. The invariant is `Descends`: whatever carries the token
  later has evolved from the lease.
-/

namespace LumaOS.Resources

open LumaOS.Base LumaOS.Text

namespace Ledger

variable {l l' : Ledger} {op : Op} {r : Option Token}

/-- **Where the leases of a step come from.** -/
theorem Effect.origin (h : Effect l op r l') {y : Lease} (hy : y ∈ l'.leases) :
    (∃ x ∈ l.leases, Evolves x y) ∨ Fresh l y l' := by
  have hmap : ∀ {f : Lease → Lease}, y ∈ l.leases.map f → (∀ x ∈ l.leases, Evolves x (f x)) →
      ∃ x ∈ l.leases, Evolves x y := by
    intro f hyf hf
    obtain ⟨x, hx, rfl⟩ := List.mem_map.mp hyf
    exact ⟨x, hx, hf x hx⟩
  have hfresh : ∀ {lease : Lease}, Fresh l lease l' →
      (∃ x ∈ l.leases, Evolves x y) ∨ Fresh l y l' := by
    intro lease hf
    rw [hf.leases, List.mem_append, List.mem_singleton] at hy
    obtain hy | rfl := hy
    · exact Or.inl ⟨y, hy, Evolves.refl y⟩
    · exact Or.inr hf
  cases h with
  | quiet h =>
    obtain ⟨f, hl, hf⟩ := h.leases
    exact Or.inl (hmap (hl ▸ hy) fun x hx => (hf x hx).1)
  | admitted h _ | reused h _ => exact hfresh h
  | drained h =>
    obtain ⟨f, hl, hf⟩ := h.leases
    exact Or.inl (hmap (hl ▸ hy) fun x hx => (hf x hx).1)
  | observed h => exact Or.inl ⟨y, h.leases ▸ hy, Evolves.refl y⟩
  | cut h =>
    rw [h.leases] at hy
    exact absurd hy List.not_mem_nil

theorem Effect.generation_le (h : Effect l op r l') : l.generation ≤ l'.generation := by
  cases h with
  | quiet h => exact h.generation.ge
  | admitted h _ | reused h _ => exact h.generation ▸ Nat.le_succ _
  | drained h | observed h | cut h => exact h.generation.ge

/-! ## Outputs and their snapshots -/

/-- An output and its epoch snapshot are written together. -/
def Paired (l : Ledger) : Prop :=
  ∀ x ∈ l.leases, x.outputSha256.isSome = x.outputDomainEpochs.isSome

theorem Effect.paired (h : Effect l op r l') (hp : l.Paired) : l'.Paired := by
  intro y hy
  obtain ⟨x, hx, hxy⟩ | hfresh := h.origin hy
  · exact hxy.paired (hp x hx)
  · exact hfresh.paired

theorem run_paired (hv : l.Valid) (hp : l.Paired) (sha256 : Bytes → Vector UInt8 32)
    (ops : List Op) : (run sha256 l ops).Paired := by
  induction ops generalizing l with
  | nil => exact hp
  | cons op ops ih =>
    obtain ⟨r, h⟩ := step_effect hv sha256 op
    exact ih h.valid (h.paired hp)

/-! ## The invariant in full -/

/-- A ledger that validates, with what that means spelled out. -/
structure Accounted (l : Ledger) : Prop where
  validates : l.validate = .ok ()
  /-- No domain outside quarantine is overcommitted. -/
  capacity : ∀ (id : String) (d : Domain), l.domains[id]? = some d → d.quarantined = false →
    d.retained + (l.peaks id).sum ≤ d.capacity - d.reserve
  generations : (l.leases.map fun x => x.token.generation).Pairwise (· < ·)
  bounds : ∀ x ∈ l.leases, (∀ a ∈ l.archives, a.throughGeneration < x.token.generation) ∧
    x.token.generation ≤ l.generation
  leaseIds : (l.leases.map fun x => x.token.leaseId).Nodup
  requests : (l.leases.map fun x => (x.owner, x.request)).Nodup
  current : ∀ x ∈ l.leases, x.state = .active → x.token.managerEpoch = l.managerEpoch
  /-- An active lease with an output has the current epoch of every domain it reserves. -/
  outputs : ∀ x ∈ l.leases, x.state = .active → x.outputSha256.isSome = true →
    ∃ epochs, x.outputDomainEpochs = some epochs ∧
      epochs.keys = x.reservations.map (·.domain) ∧
      ∀ (id : String) (e : Nat), epochs[id]? = some e →
        ∃ d : Domain, l.domains[id]? = some d ∧ e = d.epoch

theorem Valid.above_archives (hv : l.Valid) {x : Lease} (hx : x ∈ l.leases) :
    ∀ a ∈ l.archives, a.throughGeneration < x.token.generation := by
  intro a ha
  have hr : l.Ready := hv.ready fun he => by
    rw [(hv.fresh he).2.2.1] at hx
    exact absurd hx List.not_mem_nil
  exact (getLastD_rel_iff (r := (· < ·)) (fun _ _ _ => Nat.lt_trans) hr.archiveChain).mp
    (hr.leases x hx).2 _ (List.mem_cons_of_mem 0 (List.mem_map_of_mem ha))

theorem Valid.accounted (hv : l.Valid) (hp : l.Paired) : Accounted l where
  validates := validate_eq_ok.mpr hv
  capacity := fun id d hd hq => by
    obtain ⟨v, hcharged, hle⟩ := (hv.ready_of_get hd).capacity id d hd
    obtain ⟨d', hd', rfl, -⟩ := charged_eq_ok.mp hcharged
    rw [hd] at hd'
    cases hd'
    exact hle.resolve_right (by simp [hq])
  generations := List.pairwise_map.mpr (hv.leaseChain.imp LeaseLt.generation)
  bounds := fun x hx => ⟨hv.above_archives hx, (hv.leaseOk hx).generation⟩
  leaseIds := List.pairwise_map.mpr (hv.leaseChain.imp LeaseLt.leaseId)
  requests := List.pairwise_map.mpr (hv.leaseChain.imp LeaseLt.request)
  current := fun x hx => (hv.leaseOk hx).current
  outputs := fun x hx ha hout => by
    rw [hp x hx] at hout
    obtain ⟨epochs, he⟩ := Option.isSome_iff_exists.mp hout
    have hsnap := (hv.leaseOk hx).snapshot epochs he
    refine ⟨epochs, he, hsnap.keys, fun id e hide => ?_⟩
    obtain ⟨d, hd, -, -, hcur⟩ := hsnap.each id e hide
    exact ⟨d, hd, hcur ha⟩

/-- **Every reachable ledger validates**, and is accounted for in full. -/
theorem run_accounted (sha256 : Bytes → Vector UInt8 32) (ops : List Op) :
    Accounted (run sha256 empty ops) :=
  (run_valid valid_empty sha256 ops).accounted
    (run_paired valid_empty (fun _ hx => absurd hx List.not_mem_nil) sha256 ops)

/-! ## Authority is one-way -/

/-- Whatever carries the token of `x` in `l` evolved from `x`; and the generation of `x` is spent,
so no later admission carries it. -/
structure Descends (x : Lease) (l : Ledger) : Prop where
  spent : x.token.generation ≤ l.generation
  leases : ∀ y ∈ l.leases, y.token = x.token → Evolves x y

theorem Valid.descends (hv : l.Valid) {x : Lease} (hx : x ∈ l.leases) : Descends x l where
  spent := (hv.leaseOk hx).generation
  leases := fun y hy ht => by
    rw [hv.eq_of_token hy hx ht]
    exact Evolves.refl x

theorem Effect.descends {x : Lease} (h : Effect l op r l') (hd : Descends x l) :
    Descends x l' where
  spent := Nat.le_trans hd.spent h.generation_le
  leases := fun y hy ht => by
    obtain ⟨z, hz, hzy⟩ | hfresh := h.origin hy
    · exact (hd.leases z hz (hzy.token ▸ ht)).trans hzy
    · -- a fresh token has a generation above every spent one
      have := hfresh.token
      have := hd.spent
      rw [ht] at *
      omega

theorem run_descends {x : Lease} (hv : l.Valid) (hd : Descends x l)
    (sha256 : Bytes → Vector UInt8 32) (ops : List Op) : Descends x (run sha256 l ops) := by
  induction ops generalizing l with
  | nil => exact hd
  | cons op ops ih =>
    obtain ⟨r, h⟩ := step_effect hv sha256 op
    exact ih h.valid (h.descends hd)

/-- What `assert_active` returns is an active lease of the ledger with that token. -/
theorem assertActive_eq_ok {token : Token} {owner : Owner} {now : Nat} {lease : Lease}
    (h : l.assertActive token owner now = .ok lease) :
    lease ∈ l.leases ∧ lease.token = token ∧ lease.owner = owner ∧ lease.state = .active := by
  unfold assertActive at h
  simp only [bind_eq_ok, pure_eq_ok, refuseIf_eq_ok, expect_eq_ok, Bool.or_eq_false_iff,
    bne_eq_false_iff_eq] at h
  obtain ⟨i, hi, lease', hlease, _, ⟨⟨-, hactive⟩, -⟩, _, -, rfl⟩ := h
  obtain ⟨hmem, hp⟩ := findIdx?_eq_some_get (index_eq_ok.mp hi) hlease
  simp only [Bool.and_eq_true, beq_iff_eq] at hp
  exact ⟨hmem, hp.1, hp.2, hactive⟩

/-- The operations that open a new epoch. -/
def Op.epochCut : Op → Bool
  | .restart .. | .clearQuarantine .. | .migrateInventory .. => true
  | _ => false

theorem outputsFenced_of_epochCut {sha256 : Bytes → Vector UInt8 32} (hop : op.epochCut = true)
    (h : (op.method sha256).exec l = (.ok r, l')) : l'.OutputsFenced := by
  refine Mut.Spec.of_ok (m := op.method sha256) (Q := fun _ l' => l'.OutputsFenced) ?_ h
  cases op with
  | restart => exact Mut.spec_bind_pure ((spec_restart ..).mono fun _ _ h => h.2)
  | clearQuarantine => exact Mut.spec_bind_pure ((spec_clearQuarantine ..).mono fun _ _ h => h.2)
  | migrateInventory =>
    exact Mut.spec_bind_pure ((spec_migrateInventory ..).mono fun _ _ h => h.2)
  | _ => cases hop

/-- **Authority and fences are one-way.** For a lease of any reachable ledger and any continuation
of the run: once it left `active`, no later ledger has it active and `assert_active` refuses its
token for every owner and time; its receipt, once written, stays as it is, and so does its fence.
A successful epoch cut leaves every output fenced. -/
theorem run_authority_one_way (sha256 : Bytes → Vector UInt8 32) (before after : List Op)
    (x : Lease) (hx : x ∈ (run sha256 empty before).leases) :
    let l' := run sha256 (run sha256 empty before) after
    (x.state ≠ .active →
      (∀ y ∈ l'.leases, y.token = x.token → y.state ≠ .active) ∧
      ∀ owner now lease, l'.assertActive x.token owner now ≠ .ok lease) ∧
    (∀ y ∈ l'.leases, y.token = x.token →
      (∀ d, x.outputSha256 = some d → y.outputSha256 = some d) ∧
      (∀ e, x.outputDomainEpochs = some e → y.outputDomainEpochs = some e) ∧
      (x.outputFenced = true → y.outputFenced = true)) ∧
    ∀ (op : Op) (r : Option Token) (l'' : Ledger), op.epochCut = true →
      (op.method sha256).exec l' = (.ok r, l'') →
      ∀ y ∈ l''.leases, y.outputSha256.isSome = true → y.outputFenced = true := by
  intro l'
  have hv := run_valid valid_empty sha256 before
  have hd := run_descends hv (hv.descends hx) sha256 after
  refine ⟨fun hstate => ⟨fun y hy ht => (hd.leases y hy ht).ne_active hstate, ?_⟩, ?_, ?_⟩
  · intro owner now lease h
    obtain ⟨hmem, ht, -, hactive⟩ := assertActive_eq_ok h
    exact (hd.leases lease hmem ht).ne_active hstate hactive
  · intro y hy ht
    have hev := hd.leases y hy ht
    exact ⟨hev.output, hev.epochs, hev.fenced⟩
  · exact fun op r l'' hop h => outputsFenced_of_epochCut hop h

/-! ### A run to try the theorems on -/

/-- One domain of 100 bytes, 10 of them in reserve. -/
def sampleInventory : Table Domain :=
  Std.ExtTreeMap.ofList [("ram", ⟨100, 10, 90, 50, 0, 0, false, false, 1⟩)] compare

def sampleOwner : Owner := ⟨1000, 42, 7, "boot-1", 1, 9⟩

/-- A manager starts and admits one lease of 40 bytes until tick 100. -/
def sampleAdmission : List Op :=
  [.restart "manager-1" sampleInventory,
    .admitLease sampleOwner "request-1" (repeatText "a" 64) [⟨"ram", 40, 30⟩] 0 100
      (.ok (Vector.replicate 16 7))]

def sampleToken : Token := ⟨repeatText "07" 16, 1, "manager-1"⟩

/-- The admitted lease after it completed an output and expired. -/
def sampleExpired : Lease where
  token := sampleToken
  owner := sampleOwner
  request := "request-1"
  binding := repeatText "a" 64
  reservations := [⟨"ram", 40, 30⟩]
  deadlineMs := 100
  state := .draining
  reason := "expired"
  outputSha256 := some (repeatText "b" 64)
  outputDomainEpochs := some (Std.ExtTreeMap.ofList [("ram", 1)] compare)
  outputFenced := true

set_option maxRecDepth 4000 in
theorem run_authority_one_way_expired :
    let sha256 : Bytes → Vector UInt8 32 := fun _ => Vector.replicate 32 0
    let before := sampleAdmission ++
      [.completeOutput sampleToken sampleOwner 50 (repeatText "b" 64), .expire 100]
    let l' := run sha256 (run sha256 empty before) [.restart "manager-2" sampleInventory]
    ∀ owner now lease, l'.assertActive sampleToken owner now ≠ .ok lease := by
  intro sha256 before l'
  exact ((run_authority_one_way sha256 before [.restart "manager-2" sampleInventory]
    sampleExpired (by decide)).1 (by decide)).2

end Ledger

end LumaOS.Resources
