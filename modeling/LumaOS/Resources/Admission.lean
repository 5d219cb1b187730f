import LumaOS.Resources.Reachable

/-!
# Admission is exactly-once

`admissions` lists the tokens a run's fresh admissions return, in order. Their generations
increase strictly over the whole history (`admissions_above`): the counter only grows, and the
archive cut, the restarts and the migrations that clear or replace everything else keep it.

While a lease for `(owner, request)` is in the ledger, both entry points are lookups:
`admitLease_known` and `admitReusingRetained_known` say that nothing is written, and `replay_eq_ok`
when they return its token.
-/

namespace LumaOS.Resources

open LumaOS.Base LumaOS.Text

namespace Ledger

variable {l l' : Ledger} {owner : Owner} {request binding : String}
  {reservations : List Reservation} {now deadline : Nat}

/-! ## Fresh admissions of a run -/

/-- The ledger already has a lease for the pair. -/
def known (l : Ledger) (owner : Owner) (request : String) : Bool :=
  l.leases.any fun x => x.owner == owner && x.request == request

/-- The operation is no admission, or one of a pair the ledger has. -/
def Op.replayed (l : Ledger) : Op → Bool
  | .admitLease owner request .. => l.known owner request
  | .admitReusingRetained owner request .. => l.known owner request
  | _ => true

/-- The token a step returns, when the step is an admission of a pair the ledger does not have. -/
def freshToken (sha256 : Bytes → Vector UInt8 32) (l : Ledger) (op : Op) : Option Token :=
  match ((op.method sha256).exec l).1 with
  | .ok r => if op.replayed l then none else r
  | .error _ => none

/-- The tokens of the fresh admissions of a run, in order. -/
def admissions (sha256 : Bytes → Vector UInt8 32) : Ledger → List Op → List Token
  | _, [] => []
  | l, op :: ops =>
    (freshToken sha256 l op).toList ++ admissions sha256 (step sha256 l op) ops

theorem known_eq_false : l.known owner request = false ↔
    ∀ x ∈ l.leases, ¬(x.owner = owner ∧ x.request = request) := by
  unfold known
  simp only [List.any_eq_false, Bool.and_eq_true, beq_iff_eq]

/-- A fresh token is the next generation's. -/
theorem spec_fresh (sha256 : Bytes → Vector UInt8 32) {op : Op} (hop : op.replayed l = false) :
    Mut.Spec (op.method sha256) l fun r l' => ∃ token, r = some token ∧
      token.generation = l.generation + 1 ∧ l'.generation = l.generation + 1 := by
  cases op with
  | admitLease owner request =>
    refine Mut.spec_bind_pure ((spec_admitLease ..).mono fun token l' h => ?_)
    obtain ⟨-, -, old, hold, howner, hrequest, -⟩ | ⟨hfresh, -⟩ := h
    · exact absurd ⟨howner, hrequest⟩ (known_eq_false.mp hop old hold)
    · exact ⟨token, rfl, hfresh.token, hfresh.generation⟩
  | admitReusingRetained owner request =>
    refine Mut.spec_bind_pure ((spec_admitReusingRetained ..).mono fun token l' h => ?_)
    obtain ⟨-, -, old, hold, howner, hrequest, -⟩ | ⟨hfresh, -⟩ := h
    · exact absurd ⟨howner, hrequest⟩ (known_eq_false.mp hop old hold)
    · exact ⟨token, rfl, hfresh.token, hfresh.generation⟩
  | _ => cases hop

theorem freshToken_eq_some {sha256 : Bytes → Vector UInt8 32} {op : Op} {token : Token}
    (h : freshToken sha256 l op = some token) :
    token.generation = l.generation + 1 ∧
      (step sha256 l op).generation = l.generation + 1 := by
  unfold freshToken at h
  unfold step
  rcases hexec : (op.method sha256).exec l with ⟨e | r, l'⟩
  · simp only [hexec, reduceCtorEq] at h
  · simp only [hexec] at h
    split at h
    · cases h
    · rename_i hop
      obtain ⟨t, rfl, ht, hgen⟩ := (spec_fresh sha256 (by simpa using hop)).of_ok hexec
      cases h
      exact ⟨ht, hgen⟩

/-- The history from `l` on: every fresh generation is above the counter of `l`, and they
increase. -/
theorem admissions_above (hv : l.Valid) (sha256 : Bytes → Vector UInt8 32) (ops : List Op) :
    (l.generation :: (admissions sha256 l ops).map (·.generation)).Pairwise (· < ·) := by
  induction ops generalizing l with
  | nil => exact List.pairwise_singleton _ _
  | cons op ops ih =>
    obtain ⟨r, heff⟩ := step_effect hv sha256 op
    have ih := ih heff.valid
    rw [admissions]
    cases hf : freshToken sha256 l op with
    | none =>
      obtain ⟨hhead, htail⟩ := List.pairwise_cons.mp ih
      exact List.pairwise_cons.mpr
        ⟨fun n hn => Nat.lt_of_le_of_lt heff.generation_le (hhead n hn), htail⟩
    | some token =>
      obtain ⟨ht, hgen⟩ := freshToken_eq_some hf
      rw [hgen, ← ht] at ih
      rw [Option.toList_some, List.singleton_append, List.map_cons, List.pairwise_cons]
      refine ⟨fun n hn => ?_, ih⟩
      rcases List.mem_cons.mp hn with rfl | hn
      · omega
      · have := (List.pairwise_cons.mp ih).1 n hn
        omega

/-! ## Replays -/

/-- What both entry points compute for a pair the ledger has: no write, the old token or an
error. -/
def replay (l : Ledger) (old : Lease) (binding : String) (reservations : List Reservation)
    (now deadline : Nat) : Result Token := do
  l.reservationsValid reservations
  refuseIf (!identifier old.request || deadline ≤ now || deadline - now > 30000)
    "invalid resource request or lease duration"
  refuseIf (old.binding != binding || old.reservations != reservations)
    "resource idempotency conflict"
  let _ ← l.assertActive old.token old.owner now
  pure old.token

/-- The pair finds its own lease: requests are unique. -/
theorem Valid.find_request (hv : l.Valid) {x : Lease} (hx : x ∈ l.leases) :
    (l.leases.find? fun y => y.owner == x.owner && y.request == x.request) = some x := by
  have hnd : (l.leases.map fun y => (y.owner, y.request)).Nodup :=
    List.pairwise_map.mpr (hv.leaseChain.imp LeaseLt.request)
  cases hf : l.leases.find? fun y => y.owner == x.owner && y.request == x.request with
  | none => exact absurd (List.find?_eq_none.mp hf x hx) (by simp)
  | some y =>
    have hy := List.find?_some hf
    simp only [Bool.and_eq_true, beq_iff_eq] at hy
    rw [List.inj_on_of_nodup_map hnd (List.mem_of_find?_eq_some hf) hx (Prod.ext hy.1 hy.2)]

theorem admitLease_known (hv : l.Valid) {x : Lease} (hx : x ∈ l.leases)
    (random : Result (Vector UInt8 16)) :
    (admitLease x.owner x.request binding reservations now deadline random).exec l =
      (l.replay x binding reservations now deadline, l) := by
  have hself : l.validate = .ok () := validate_eq_ok.mpr hv
  unfold admitLease replay
  rw [Mut.exec_bind_get, hv.find_request hx, hself,
    Mut.exec_bind_of_ok (Mut.exec_lift (.ok ()) l)]
  exact Mut.exec_bind_lift fun _ _ => Mut.exec_bind_lift fun _ _ => Mut.exec_bind_lift fun _ _ =>
    Mut.exec_bind_lift fun _ _ => Mut.exec_pure _ _

theorem admitReusingRetained_known (hv : l.Valid) {x : Lease} (hx : x ∈ l.leases)
    (credits : Table Nat) (random : Result (Vector UInt8 16)) :
    (admitReusingRetained x.owner x.request binding reservations now deadline credits random).exec l
      = (l.replay x binding reservations now deadline, l) := by
  have hany : (l.leases.any fun y => y.owner == x.owner && y.request == x.request) = true :=
    List.any_eq_true.mpr ⟨x, hx, by simp⟩
  unfold admitReusingRetained
  rw [Mut.exec_bind_get, if_pos hany]
  exact admitLease_known hv hx random

/-- A replay returns the lease's token exactly when it repeats the admission and the lease still
has authority. -/
theorem replay_eq_ok (hv : l.Valid) {x : Lease} (hx : x ∈ l.leases) {token : Token} :
    l.replay x binding reservations now deadline = .ok token ↔
      token = x.token ∧ binding = x.binding ∧ reservations = x.reservations ∧
        now < deadline ∧ deadline - now ≤ 30000 ∧
        ∃ lease, l.assertActive x.token x.owner now = .ok lease := by
  have hok := hv.leaseOk hx
  have hrequest : identifier x.request = true := by
    have := hok.wellFormed
    simp only [Lease.wellFormed, Bool.and_eq_true] at this
    tauto
  unfold replay
  simp only [bind_eq_ok, refuseIf_eq_ok, reservationsValid_eq_ok, pure_eq_ok, hrequest,
    Bool.or_eq_false_iff, bne_eq_false_iff_eq, decide_eq_false_iff_not, Nat.not_le, Nat.not_lt,
    Bool.not_true, exists_const, true_and]
  constructor
  · rintro ⟨-, ⟨h1, h2⟩, ⟨rfl, rfl⟩, lease, h3, rfl⟩
    exact ⟨rfl, rfl, rfl, h1, h2, lease, h3⟩
  · rintro ⟨rfl, rfl, rfl, h1, h2, lease, h3⟩
    exact ⟨hok.plan, ⟨h1, h2⟩, ⟨rfl, rfl⟩, lease, h3, rfl⟩

theorem noPanic_assertActive (hv : l.Valid) (token : Token) (owner : Owner) (now : Nat) :
    NoPanic (l.assertActive token owner now) := by
  unfold assertActive
  refine noPanic_bind (noPanic_okOr _ _) fun i hi => ?_
  obtain ⟨hlt, -⟩ := List.findIdx?_eq_some_iff_getElem.mp (index_eq_ok.mp hi)
  have hget := List.getElem?_eq_getElem hlt
  refine noPanic_bind (noPanic_expect hget _) fun lease hlease => ?_
  have hmem := List.mem_of_getElem? (expect_eq_ok.mp hlease)
  refine noPanic_bind (noPanic_refuseIf _ _) fun _ _ =>
    noPanic_bind (noPanic_forM fun res hres => ?_) fun _ _ => noPanic_ok _
  obtain ⟨d, hd⟩ := Table.mem_iff_get.mp ((hv.leaseOk hmem).plan.each res hres).2.2
  exact noPanic_bind (noPanic_expect hd _) fun _ _ => noPanic_refuseIf _ _

theorem noPanic_replay (hv : l.Valid) (x : Lease) (binding : String)
    (reservations : List Reservation) (now deadline : Nat) :
    NoPanic (l.replay x binding reservations now deadline) := by
  have hplan : NoPanic (l.reservationsValid reservations) :=
    noPanic_bind (noPanic_refuseIf _ _) fun _ _ => noPanic_bind (noPanic_foldlM
      (fun s r => noPanic_bind (noPanic_refuseIf _ _) fun _ _ => noPanic_ok _) _ _)
      fun _ _ => noPanic_ok _
  exact noPanic_bind hplan fun _ _ => noPanic_bind (noPanic_refuseIf _ _) fun _ _ =>
    noPanic_bind (noPanic_refuseIf _ _) fun _ _ =>
    noPanic_bind (noPanic_assertActive hv _ _ _) fun _ _ => noPanic_ok _

/-- **Admission is exactly-once.** Over every run, fresh admissions return strictly increasing
generations, hence distinct tokens. In every ledger reached, an admission for a pair that has a
lease writes nothing through either entry point: it returns that lease's token, exactly when it
repeats the admission's binding and reservations with a valid duration and the lease is still
active, and is refused otherwise. -/
theorem admission_exactly_once (sha256 : Bytes → Vector UInt8 32) (ops : List Op) :
    ((admissions sha256 empty ops).map (·.generation)).Pairwise (· < ·) ∧
    (admissions sha256 empty ops).Nodup ∧
    ∀ x ∈ (run sha256 empty ops).leases, ∀ (binding : String) (reservations : List Reservation)
      (now deadline : Nat) (credits : Table Nat) (random : Result (Vector UInt8 16)),
      ∃ r : Result Token,
        (admitLease x.owner x.request binding reservations now deadline random).exec
          (run sha256 empty ops) = (r, run sha256 empty ops) ∧
        (admitReusingRetained x.owner x.request binding reservations now deadline credits
          random).exec (run sha256 empty ops) = (r, run sha256 empty ops) ∧
        (r = .ok x.token ∨ ∃ message, r = .error (.refused message)) ∧
        (r = .ok x.token ↔ binding = x.binding ∧ reservations = x.reservations ∧
          now < deadline ∧ deadline - now ≤ 30000 ∧
          ∃ lease, (run sha256 empty ops).assertActive x.token x.owner now = .ok lease) := by
  have hinc := (List.pairwise_cons.mp (admissions_above valid_empty sha256 ops)).2
  have hv := run_valid valid_empty sha256 ops
  refine ⟨hinc, ?_, fun x hx binding reservations now deadline credits random => ?_⟩
  · exact (List.pairwise_map.mp hinc).imp fun hlt he => Nat.ne_of_lt hlt (congrArg _ he)
  · refine ⟨_, admitLease_known hv hx random, admitReusingRetained_known hv hx credits random,
      ?_, ?_⟩
    · cases hr : (run sha256 empty ops).replay x binding reservations now deadline with
      | ok token => exact Or.inl (by rw [((replay_eq_ok hv hx).mp hr).1])
      | error stop =>
        cases stop with
        | refused message => exact Or.inr ⟨message, rfl⟩
        | panicked message => exact absurd hr ((noPanic_replay hv _ _ _ _ _).out message)
    · rw [replay_eq_ok hv hx]
      exact and_iff_right rfl

set_option maxRecDepth 4000 in
theorem admission_exactly_once_sample :
    let sha256 : Bytes → Vector UInt8 32 := fun _ => Vector.replicate 32 0
    admissions sha256 empty sampleAdmission = [sampleToken] ∧
      ∀ x ∈ (run sha256 empty sampleAdmission).leases, ∀ binding reservations now deadline random,
        ((admitLease x.owner x.request binding reservations now deadline random).exec
          (run sha256 empty sampleAdmission)).2 = run sha256 empty sampleAdmission := by
  intro sha256
  refine ⟨by decide, fun x hx binding reservations now deadline random => ?_⟩
  obtain ⟨r, h, -⟩ := (admission_exactly_once sha256 sampleAdmission).2.2 x hx binding
    reservations now deadline ∅ random
  rw [h]

end Ledger

end LumaOS.Resources
