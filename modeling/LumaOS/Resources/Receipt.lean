import LumaOS.Resources.Reachable

/-!
# Computation receipts

`committed_receipt` (`workflow_resource.rs:30-63`) grants the receipt of a lease with an output while
five conditions hold (`Granted`). In a valid ledger it panics on no token, and so it refuses every
token that it does not grant (`refuses_iff`).
-/

namespace LumaOS.Resources

open LumaOS.Base LumaOS.Text LumaOS.Json

namespace Ledger

/-- `reservations.iter().any(|r| ledger.domains[&r.domain].quarantined)`. -/
def anyQuarantined (l : Ledger) : List Reservation → Result Bool
  | [] => .ok false
  | r :: rs => do
    let d ← expect l.domains[r.domain]? "no entry found for key"
    if d.quarantined then pure true else l.anyQuarantined rs

/-- `epochs.iter().any(|(id, epoch)| ledger.domains[id].epoch != epoch.0)`. -/
def anyEpochPassed (l : Ledger) : List (String × Nat) → Result Bool
  | [] => .ok false
  | e :: es => do
    let d ← expect l.domains[e.1]? "no entry found for key"
    if d.epoch != e.2 then pure true else l.anyEpochPassed es

/-- The condition under which `committed_receipt` refuses a lease with a snapshot. -/
def interrupted (l : Ledger) (token : Token) (receipt : Lease) (epochs : Table Nat) :
    Result Bool :=
  if receipt.owner.uid != 0 || receipt.outputSha256.isNone ||
      token.managerEpoch != l.managerEpoch then
    .ok true
  else do
    let quarantined ← l.anyQuarantined receipt.reservations
    if quarantined then pure true
    else do
      let passed ← l.anyEpochPassed epochs.toList
      pure (passed || receipt.outputFenced)

/-- The receipt: a `json!` object of the lease and its snapshot. -/
def receiptValue (receipt : Lease) (epochs : Table Nat) : Value :=
  .object [("binding", .string receipt.binding),
    ("output_sha256", (receipt.outputSha256.map Value.string).getD .null),
    ("output_domain_epochs", .object (epochs.toList.map fun e => (e.1, decimal e.2))),
    ("lease", receipt.token.toJson), ("state", receipt.state.toJson),
    ("physical_release_granted", .bool false)]

/-- `workflow_resource::committed_receipt`. -/
def committedReceipt (l : Ledger) (token : Token) : Result Value := do
  l.validate
  let receipt ← okOr (l.leases.find? fun x => x.token == token)
    "computation receipt unavailable; no fabricated provenance"
  let epochs ← okOr receipt.outputDomainEpochs
    "computation domain provenance unavailable; recompute in a fresh generation"
  let refused ← l.interrupted token receipt epochs
  refuseIf refused "computation receipt belongs to an interrupted or fenced generation"
  pure (receiptValue receipt epochs)

/-! ## When a receipt is granted -/

variable {l l' : Ledger} {token : Token} {x y : Lease} {epochs : Table Nat}

theorem anyQuarantined_eq_ok : ∀ {rs : List Reservation}, l.anyQuarantined rs = .ok false ↔
    ∀ r ∈ rs, ∃ d : Domain, l.domains[r.domain]? = some d ∧ d.quarantined = false
  | [] => by simp [anyQuarantined]
  | r :: rs => by
    rw [anyQuarantined, bind_eq_ok, List.forall_mem_cons]
    constructor
    · rintro ⟨d, hd, h⟩
      cases hq : d.quarantined with
      | true =>
        rw [hq] at h
        cases h
      | false =>
        rw [hq] at h
        exact ⟨⟨d, expect_eq_ok.mp hd, hq⟩, anyQuarantined_eq_ok.mp h⟩
    · rintro ⟨⟨d, hd, hq⟩, h⟩
      refine ⟨d, expect_eq_ok.mpr hd, ?_⟩
      rw [hq]
      exact anyQuarantined_eq_ok.mpr h

theorem anyEpochPassed_eq_ok : ∀ {es : List (String × Nat)}, l.anyEpochPassed es = .ok false ↔
    ∀ e ∈ es, ∃ d : Domain, l.domains[e.1]? = some d ∧ d.epoch = e.2
  | [] => by simp [anyEpochPassed]
  | e :: es => by
    rw [anyEpochPassed, bind_eq_ok, List.forall_mem_cons]
    constructor
    · rintro ⟨d, hd, h⟩
      by_cases he : d.epoch = e.2
      · rw [if_neg (by simp [he])] at h
        exact ⟨⟨d, expect_eq_ok.mp hd, he⟩, anyEpochPassed_eq_ok.mp h⟩
      · rw [if_pos (by simpa using he)] at h
        cases h
    · rintro ⟨⟨d, hd, he⟩, h⟩
      refine ⟨d, expect_eq_ok.mpr hd, ?_⟩
      rw [if_neg (by simp [he])]
      exact anyEpochPassed_eq_ok.mpr h

/-- The five conditions, for the lease with the token. -/
structure Granted (l : Ledger) (y : Lease) (epochs : Table Nat) : Prop where
  mem : y ∈ l.leases
  snapshot : y.outputDomainEpochs = some epochs
  root : y.owner.uid = 0
  output : y.outputSha256.isSome = true
  manager : y.token.managerEpoch = l.managerEpoch
  usable : ∀ r ∈ y.reservations, ∃ d : Domain, l.domains[r.domain]? = some d ∧ d.quarantined = false
  current : ∀ (id : String) (e : Nat), epochs[id]? = some e →
    ∃ d : Domain, l.domains[id]? = some d ∧ d.epoch = e
  fenced : y.outputFenced = false

theorem interrupted_eq_ok : l.interrupted token x epochs = .ok false ↔
    x.owner.uid = 0 ∧ x.outputSha256.isSome = true ∧ token.managerEpoch = l.managerEpoch ∧
      l.anyQuarantined x.reservations = .ok false ∧ l.anyEpochPassed epochs.toList = .ok false ∧
      x.outputFenced = false := by
  unfold interrupted
  by_cases h : (x.owner.uid != 0 || x.outputSha256.isNone ||
      token.managerEpoch != l.managerEpoch) = true
  · rw [if_pos h]
    simp only [Bool.or_eq_true, bne_iff_ne, Option.isNone_iff_eq_none] at h
    constructor
    · intro hf
      cases hf
    · rintro ⟨huid, hout, hman, -⟩
      rcases h with (h | h) | h
      · exact absurd huid h
      · rw [h] at hout
        cases hout
      · exact absurd hman h
  · rw [if_neg h]
    simp only [Bool.or_eq_true, bne_iff_ne, Option.isNone_iff_eq_none, not_or, not_not] at h
    rw [bind_eq_ok]
    constructor
    · rintro ⟨quarantined, hq, hrest⟩
      cases quarantined with
      | true => cases hrest
      | false =>
        rw [if_neg (by decide), bind_eq_ok] at hrest
        obtain ⟨passed, hp, hpure⟩ := hrest
        obtain ⟨rfl, hfence⟩ := Bool.or_eq_false_iff.mp (pure_eq_ok.mp hpure)
        exact ⟨h.1.1, Option.isSome_iff_ne_none.mpr h.1.2, h.2, hq, hp, hfence⟩
    · rintro ⟨-, -, -, hq, hp, hfence⟩
      refine ⟨false, hq, ?_⟩
      rw [if_neg (by decide), bind_eq_ok]
      exact ⟨false, hp, by rw [hfence]; rfl⟩

theorem committedReceipt_eq_ok (hv : l.Valid) {v : Value} : l.committedReceipt token = .ok v ↔
    ∃ y epochs, y.token = token ∧ Granted l y epochs ∧ v = receiptValue y epochs := by
  unfold committedReceipt
  simp only [bind_eq_ok, okOr_eq_ok, refuseIf_eq_ok, pure_eq_ok]
  constructor
  · rintro ⟨-, -, y, hy, epochs, he, refused, hr, -, rfl, rfl⟩
    have htoken : y.token = token := by simpa using List.find?_some hy
    obtain ⟨huid, hout, hman, hq, hp, hf⟩ := interrupted_eq_ok.mp hr
    refine ⟨y, epochs, htoken, ⟨List.mem_of_find?_eq_some hy, he, huid, hout, htoken ▸ hman,
      anyQuarantined_eq_ok.mp hq, fun id e hide => ?_, hf⟩, rfl⟩
    exact anyEpochPassed_eq_ok.mp hp (id, e) (Table.mem_toList_iff_get.mpr hide)
  · rintro ⟨y, epochs, rfl, h, rfl⟩
    have hfind : l.leases.find? (fun x => x.token == y.token) = some y := by
      cases hfound : l.leases.find? fun x => x.token == y.token with
      | none => exact absurd (List.find?_eq_none.mp hfound y h.mem) (by simp)
      | some z =>
        have htoken : z.token = y.token := by simpa using List.find?_some hfound
        rw [hv.eq_of_token (List.mem_of_find?_eq_some hfound) h.mem htoken]
    refine ⟨(), validate_eq_ok.mpr hv, y, hfind, epochs, h.snapshot, false, ?_, (), rfl, rfl⟩
    refine interrupted_eq_ok.mpr ⟨h.root, h.output, h.manager, anyQuarantined_eq_ok.mpr h.usable,
      anyEpochPassed_eq_ok.mpr fun e he => ?_, h.fenced⟩
    exact h.current e.1 e.2 (Table.mem_toList_iff_get.mp he)

/-- `committed_receipt` refuses the token. -/
def Refuses (l : Ledger) (token : Token) : Prop :=
  ∃ message, l.committedReceipt token = refuse message

theorem anyQuarantined_total : ∀ (rs : List Reservation),
    (∀ r ∈ rs, ∃ d : Domain, l.domains[r.domain]? = some d) → ∃ b, l.anyQuarantined rs = .ok b
  | [], _ => ⟨false, rfl⟩
  | r :: rs, h => by
    obtain ⟨⟨d, hd⟩, hrs⟩ := List.forall_mem_cons.mp h
    obtain ⟨b, hb⟩ := anyQuarantined_total rs hrs
    rw [anyQuarantined, expect_eq_ok.mpr hd]
    cases hq : d.quarantined with
    | true => exact ⟨true, by simp [bind, Except.bind, hq, pure, Except.pure]⟩
    | false => exact ⟨b, by simpa [bind, Except.bind, hq] using hb⟩

theorem anyEpochPassed_total : ∀ (es : List (String × Nat)),
    (∀ e ∈ es, ∃ d : Domain, l.domains[e.1]? = some d) → ∃ b, l.anyEpochPassed es = .ok b
  | [], _ => ⟨false, rfl⟩
  | e :: es, h => by
    obtain ⟨⟨d, hd⟩, hes⟩ := List.forall_mem_cons.mp h
    obtain ⟨b, hb⟩ := anyEpochPassed_total es hes
    rw [anyEpochPassed, expect_eq_ok.mpr hd]
    by_cases he : d.epoch = e.2
    · exact ⟨b, by simpa [bind, Except.bind, he] using hb⟩
    · exact ⟨true, by simp [bind, Except.bind, he, pure, Except.pure]⟩

/-- In a valid ledger no index of `committed_receipt` is out of bounds. -/
theorem noPanic_committedReceipt (hv : l.Valid) (token : Token) :
    NoPanic (l.committedReceipt token) := by
  have hinterrupted : ∀ y ∈ l.leases, ∀ epochs, y.outputDomainEpochs = some epochs →
      NoPanic (l.interrupted token y epochs) := by
    intro y hy epochs he
    have hok := hv.leaseOk hy
    unfold interrupted
    split
    · exact noPanic_ok _
    · obtain ⟨b, hb⟩ := anyQuarantined_total y.reservations fun r hr =>
        Table.mem_iff_get.mp (hok.plan.each r hr).2.2
      obtain ⟨c, hc⟩ := anyEpochPassed_total epochs.toList fun e he' => by
        obtain ⟨d, hd, -⟩ := (hok.snapshot epochs he).each e.1 e.2 (Table.mem_toList_iff_get.mp he')
        exact ⟨d, hd⟩
      rw [hb, hc]
      cases b with
      | true | false => exact noPanic_ok _
  unfold committedReceipt
  refine noPanic_bind ⟨fun m hm => ?_⟩ fun _ _ => noPanic_bind inferInstance fun y hy =>
    noPanic_bind inferInstance fun epochs he => noPanic_bind (hinterrupted y ?_ epochs ?_)
      fun _ _ => inferInstance
  · rw [(validate_eq_ok (u := ())).mpr hv] at hm
    cases hm
  · exact List.mem_of_find?_eq_some (okOr_eq_ok.mp hy)
  · exact okOr_eq_ok.mp he

theorem refuses_iff (hv : l.Valid) : l.Refuses token ↔
    ∀ y epochs, y.token = token → ¬Granted l y epochs := by
  constructor
  · rintro ⟨message, h⟩ y epochs ht hg
    rw [(committedReceipt_eq_ok hv).mpr ⟨y, epochs, ht, hg, rfl⟩] at h
    cases h
  · intro hno
    cases h : l.committedReceipt token with
    | ok v =>
      obtain ⟨y, epochs, ht, hg, -⟩ := (committedReceipt_eq_ok hv).mp h
      exact absurd hg (hno y epochs ht)
    | error stop =>
      cases stop with
      | refused message => exact ⟨message, h⟩
      | panicked message => exact absurd h ((noPanic_committedReceipt hv token).out message)

end Ledger

end LumaOS.Resources
