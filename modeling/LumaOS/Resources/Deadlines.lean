import LumaOS.Resources.Reachable

/-!
# Who writes a lease deadline

A deadline is written twice: by the admission that creates the lease, and by `renew` for its own
token. Every other operation keeps the deadline of every lease it keeps (`Untouched`), and none
brings a token back: `step_deadline`. With the clock of the caller that is what bounds a worker's
own deadline by the broker's.
-/

namespace LumaOS.Resources

open LumaOS.Base LumaOS.Text

theorem Lease.drain_deadlineMs (reason : String) (x : Lease) :
    (x.drain reason).deadlineMs = x.deadlineMs := by
  unfold Lease.drain
  split
  · rfl
  · rfl

namespace Ledger

variable {l l' : Ledger}

/-- One lease, with the deadline it had. -/
def SameDeadline (x y : Lease) : Prop := y.token = x.token ∧ y.deadlineMs = x.deadlineMs

theorem SameDeadline.refl (x : Lease) : SameDeadline x x := ⟨rfl, rfl⟩

/-- Every lease left was there, with the deadline it has. -/
def Untouched (l l' : Ledger) : Prop := ∀ y ∈ l'.leases, ∃ x ∈ l.leases, SameDeadline x y

theorem Untouched.of_map {f : Lease → Lease} (h : l'.leases = l.leases.map f)
    (hf : ∀ x ∈ l.leases, SameDeadline x (f x)) : Untouched l l' := by
  intro y hy
  rw [h] at hy
  obtain ⟨x, hx, rfl⟩ := List.mem_map.mp hy
  exact ⟨x, hx, hf x hx⟩

theorem Untouched.of_modify {f : Lease → Lease} {i : Nat} (h : l'.leases = l.leases.modify i f)
    (hf : ∀ x ∈ l.leases, SameDeadline x (f x)) : Untouched l l' := by
  have hrel : List.Forall₂ SameDeadline l.leases (l.leases.modify i f) :=
    forall₂_modify SameDeadline.refl fun x hx => hf x (List.mem_of_getElem? hx)
  rw [← h] at hrel
  exact exists_mem_of_forall₂ hrel

theorem Untouched.of_leases (h : l'.leases = l.leases) : Untouched l l' :=
  fun y hy => ⟨y, h ▸ hy, SameDeadline.refl y⟩

theorem sameDeadline_drain (reason : String) (x : Lease) : SameDeadline x (x.drain reason) :=
  ⟨(x.evolves_drain reason).token, x.drain_deadlineMs reason⟩

theorem untouched_restart (epoch : String) (inventory : Table Domain) :
    Mut.Spec (restart epoch inventory) l fun _ l' => Untouched l l' := by
  unfold restart
  refine Mut.spec_bind_get (Mut.spec_bind_lift fun _ _ => Mut.spec_bind_lift fun _ _ =>
    Mut.spec_bind_lift fun domains _ => Mut.spec_bind_lift fun _ _ => Mut.spec_set ?_)
  exact Untouched.of_map (List.map_map ..) fun x _ => sameDeadline_drain "manager-restart" x

theorem untouched_completeOutput (token : Token) (owner : Owner) (now : Nat) (digest : String) :
    Mut.Spec (completeOutput token owner now digest) l fun _ l' => Untouched l l' := by
  unfold completeOutput
  refine Mut.spec_bind_get (Mut.spec_bind_lift fun _ _ => Mut.spec_bind_lift fun _ _ =>
    Mut.spec_bind_lift fun _ _ => Mut.spec_bind_lift fun i _ =>
    Mut.spec_bind_lift fun lease _ => Mut.spec_bind_lift fun epochs _ => ?_)
  split
  · exact Mut.spec_lift fun _ _ => Untouched.of_leases rfl
  · exact Mut.spec_modify (Untouched.of_modify rfl fun x _ => ⟨rfl, rfl⟩)

theorem untouched_revoke (token : Token) (reason : String) :
    Mut.Spec (revoke token reason) l fun _ l' => Untouched l l' := by
  unfold revoke
  refine Mut.spec_bind_get (Mut.spec_bind_lift fun _ _ => Mut.spec_bind_lift fun i _ =>
    Mut.spec_modify (Untouched.of_modify rfl fun x _ => ?_))
  unfold revokeLease
  split
  · exact sameDeadline_drain reason x
  · exact sameDeadline_drain reason x

theorem untouched_expire (now : Nat) : Mut.Spec (expire now) l fun _ l' => Untouched l l' := by
  unfold expire
  refine Mut.spec_modify (Untouched.of_map rfl fun x _ => ?_)
  unfold expireLease
  split
  · exact ⟨rfl, rfl⟩
  · exact ⟨rfl, rfl⟩

theorem untouched_observe (id : String) (used retained : Nat) :
    Mut.Spec (transaction (observe id used retained)) l fun _ l' => Untouched l l' :=
  (spec_observe id used retained).mono fun _ _ h => Untouched.of_leases h.leases

theorem untouched_quarantine (id reason : String) :
    Mut.Spec (quarantine id reason) l fun _ l' => Untouched l l' := by
  unfold quarantine
  refine Mut.spec_bind_get (Mut.spec_bind_lift fun _ _ => Mut.spec_bind_lift fun d _ =>
    Mut.spec_bind_lift fun domains _ => Mut.spec_bind_lift fun _ _ =>
    Mut.spec_set (Untouched.of_map rfl fun x _ => ?_))
  unfold quarantineLease
  split
  · exact sameDeadline_drain reason x
  · exact SameDeadline.refl x

theorem untouched_finishDraining (token : Token) (retained : Table Nat) :
    Mut.Spec (finishDraining token retained) l fun _ l' => Untouched l l' := by
  unfold finishDraining
  refine Mut.spec_bind_get (Mut.spec_bind_lift fun i _ =>
    Mut.spec_bind_lift fun lease _ => Mut.spec_bind_lift fun _ _ =>
    Mut.spec_bind_lift fun _ _ => Mut.spec_bind_lift fun domains _ =>
    Mut.spec_bind_lift fun _ _ => Mut.spec_set ?_)
  exact Untouched.of_modify rfl fun x _ => ⟨rfl, rfl⟩

theorem untouched_clearQuarantine (sha256 : Bytes → Vector UInt8 32) (review : String)
    (inventory : Table Domain) :
    Mut.Spec (clearQuarantine sha256 review inventory) l fun _ l' => Untouched l l' := by
  unfold clearQuarantine
  refine Mut.spec_bind_get (Mut.spec_bind_lift fun _ _ =>
    Mut.spec_bind_lift fun domains _ => Mut.spec_bind_lift fun _ _ => Mut.spec_set ?_)
  exact Untouched.of_map rfl fun x _ => ⟨rfl, rfl⟩

theorem untouched_migrateInventory (sha256 : Bytes → Vector UInt8 32) (review epoch : String)
    (inventory : Table Domain) :
    Mut.Spec (migrateInventory sha256 review epoch inventory) l fun _ l' => Untouched l l' := by
  unfold migrateInventory
  refine Mut.spec_bind_get (Mut.spec_bind_lift fun _ _ => Mut.spec_bind_lift fun _ _ =>
    Mut.spec_bind_lift fun domains _ => Mut.spec_bind_lift fun _ _ => Mut.spec_set ?_)
  exact Untouched.of_map rfl fun x _ => ⟨rfl, rfl⟩

theorem untouched_archive (hv : l.Valid) (sha256 : Bytes → Vector UInt8 32) (review epoch : String)
    (digest : Vector UInt8 32) :
    Mut.Spec (archive sha256 review epoch digest) l fun _ l' => Untouched l l' := by
  refine (spec_archive hv sha256 review epoch digest).mono fun _ l' h y hy => ?_
  rw [h.leases] at hy
  exact absurd hy List.not_mem_nil

/-! ## Renewal and admission -/

/-- A renewal writes one deadline, of a lease that was active with this token. -/
def Renewed (token : Token) (deadline : Nat) (l l' : Ledger) : Prop :=
  (∀ y ∈ l'.leases, ∃ x ∈ l.leases, y.token = x.token ∧
    (y.deadlineMs = x.deadlineMs ∨ y.token = token ∧ y.deadlineMs = deadline)) ∧
  ∀ y ∈ l'.leases, y.token = token → y.deadlineMs = deadline

theorem renewed_renew (hv : l.Valid) (token : Token) (owner : Owner) (now deadline : Nat) :
    Mut.Spec (renew token owner now deadline) l fun _ l' => Renewed token deadline l l' := by
  unfold renew
  refine Mut.spec_bind_get (Mut.spec_bind_lift fun _ _ => Mut.spec_bind_lift fun _ _ =>
    Mut.spec_bind_lift fun i hi => Mut.spec_modify ?_)
  have hidx := index_eq_ok.mp hi
  have htoken : ∀ x : Lease, (x.token == token && x.owner == owner) = true → x.token = token := by
    intro x hx
    rw [Bool.and_eq_true, beq_iff_eq] at hx
    exact hx.1
  have hmodify := hv.modify_leases htoken hidx fun lease => { lease with deadlineMs := deadline }
  obtain ⟨lease, hlease⟩ : ∃ lease, l.leases[i]? = some lease := by
    have hlt := (List.findIdx?_eq_some_iff_getElem.mp hidx).1
    exact ⟨l.leases[i], List.getElem?_eq_getElem hlt⟩
  obtain ⟨hmem, hp⟩ := findIdx?_eq_some_get hidx hlease
  constructor
  · intro y hy
    dsimp only at hy
    rw [hmodify] at hy
    obtain ⟨x, hx, rfl⟩ := List.mem_map.mp hy
    refine ⟨x, hx, ?_⟩
    split
    · rename_i hpx
      exact ⟨rfl, .inr ⟨htoken x hpx, rfl⟩⟩
    · exact ⟨rfl, .inl rfl⟩
  · intro y hy htok
    dsimp only at hy
    rw [hmodify] at hy
    obtain ⟨x, hx, rfl⟩ := List.mem_map.mp hy
    by_cases hpx : (x.token == token && x.owner == owner) = true
    · rw [if_pos hpx]
    · -- the token is the written lease's, and a valid ledger has one of each
      rw [if_neg hpx] at htok
      obtain rfl := hv.eq_of_token hx hmem (htok.trans (htoken lease hp).symm)
      exact absurd hp hpx

/-! ## One step -/

/-- The deadline an operation asks for. -/
def Op.deadline? : Op → Option Nat
  | .admitLease _ _ _ _ _ deadline _ => some deadline
  | .admitReusingRetained _ _ _ _ _ deadline _ _ => some deadline
  | .renew _ _ _ deadline => some deadline
  | _ => none

/-- **Where the deadline of a lease comes from**: it had it, this operation asked for it, or the
lease is new. -/
def Dated (op : Op) (l l' : Ledger) : Prop :=
  ∀ y ∈ l'.leases, (∃ x ∈ l.leases, y.token = x.token ∧
    (y.deadlineMs = x.deadlineMs ∨ op.deadline? = some y.deadlineMs)) ∨
    l.generation < y.token.generation

theorem Untouched.dated {op : Op} (h : Untouched l l') : Dated op l l' := by
  intro y hy
  obtain ⟨x, hx, htoken, hdeadline⟩ := h y hy
  exact .inl ⟨x, hx, htoken, .inl hdeadline⟩

theorem Fresh.dated {op : Op} {lease : Lease} (h : Fresh l lease l') : Dated op l l' := by
  intro y hy
  rw [h.leases, List.mem_append, List.mem_singleton] at hy
  obtain hy | rfl := hy
  · exact .inl ⟨y, hy, rfl, .inl rfl⟩
  · exact .inr (by rw [h.token]; omega)

theorem dated_method (hv : l.Valid) (sha256 : Bytes → Vector UInt8 32) (op : Op) :
    Mut.Spec (op.method sha256) l fun _ l' => Dated op l l' := by
  cases op with
  | restart epoch inventory =>
    exact Mut.spec_bind_pure ((untouched_restart ..).mono fun _ _ h => h.dated)
  | admitLease owner request binding reservations now deadline random =>
    refine Mut.spec_bind_pure ((spec_admitLease ..).mono fun token l' h => ?_)
    obtain ⟨rfl, -⟩ | ⟨hfresh, -⟩ := h
    · exact (Untouched.of_leases rfl).dated
    · exact hfresh.dated
  | admitReusingRetained owner request binding reservations now deadline credits random =>
    refine Mut.spec_bind_pure ((spec_admitReusingRetained ..).mono fun token l' h => ?_)
    obtain ⟨rfl, -⟩ | ⟨hfresh, -⟩ := h
    · exact (Untouched.of_leases rfl).dated
    · exact hfresh.dated
  | renew token owner now deadline =>
    refine Mut.spec_bind_pure ((renewed_renew hv ..).mono fun _ l' h y hy => ?_)
    obtain ⟨x, hx, htoken, hdeadline⟩ := h.1 y hy
    exact .inl ⟨x, hx, htoken, hdeadline.imp id fun hd => congrArg some hd.2.symm⟩
  | completeOutput token owner now digest =>
    exact Mut.spec_bind_pure ((untouched_completeOutput ..).mono fun _ _ h => h.dated)
  | revoke token reason =>
    exact Mut.spec_bind_pure ((untouched_revoke ..).mono fun _ _ h => h.dated)
  | expire now => exact Mut.spec_bind_pure ((untouched_expire now).mono fun _ _ h => h.dated)
  | observe id used retained =>
    exact Mut.spec_bind_pure ((untouched_observe ..).mono fun _ _ h => h.dated)
  | quarantine id reason =>
    exact Mut.spec_bind_pure ((untouched_quarantine ..).mono fun _ _ h => h.dated)
  | finishDraining token retained =>
    exact Mut.spec_bind_pure ((untouched_finishDraining ..).mono fun _ _ h => h.dated)
  | clearQuarantine review inventory =>
    exact Mut.spec_bind_pure ((untouched_clearQuarantine ..).mono fun _ _ h => h.dated)
  | migrateInventory review epoch inventory =>
    exact Mut.spec_bind_pure ((untouched_migrateInventory ..).mono fun _ _ h => h.dated)
  | archive review epoch digest =>
    exact Mut.spec_bind_pure ((untouched_archive hv ..).mono fun _ _ h => h.dated)

theorem step_dated (hv : l.Valid) (sha256 : Bytes → Vector UInt8 32) (op : Op) :
    Dated op l (step sha256 l op) := by
  have hspec := dated_method hv sha256 op
  unfold step
  rcases hexec : (op.method sha256).exec l with ⟨e | r, l'⟩
  · rw [hspec.of_error hexec]
    exact (Untouched.of_leases rfl).dated
  · exact hspec.of_ok hexec

/-- **The deadline of an active lease only moves when it is renewed**: a lease that is active after
a step was active before it, with this deadline or one the step asked for. -/
theorem step_deadline (hv : l.Valid) (sha256 : Bytes → Vector UInt8 32) (op : Op) {y : Lease}
    (hy : y ∈ (step sha256 l op).leases) (hactive : y.state = .active)
    (hold : y.token.generation ≤ l.generation) :
    ∃ x ∈ l.leases, x.token = y.token ∧ x.state = .active ∧
      (y.deadlineMs = x.deadlineMs ∨ op.deadline? = some y.deadlineMs) := by
  obtain ⟨x, hx, htoken, hdeadline⟩ | hnew := step_dated hv sha256 op y hy
  · obtain ⟨r, heffect⟩ := step_effect hv sha256 op
    obtain ⟨z, hz, hevolves⟩ | hfresh := heffect.origin hy
    · obtain rfl := hv.eq_of_token hx hz (htoken.symm.trans hevolves.token)
      refine ⟨x, hx, htoken.symm, ?_, hdeadline⟩
      by_contra hne
      exact hevolves.ne_active hne hactive
    · rw [hfresh.token] at hold
      omega
  · omega

end Ledger

end LumaOS.Resources
