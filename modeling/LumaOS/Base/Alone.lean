import LumaOS.Base.Pool

/-!
# A call on a part of the state, and a call on its own

`Prog.zoom` runs a call on a part of a larger state; it follows what the call follows there
(`Follows.zoom`). `Prog.alone` is what a call returns and leaves when no other call gets a turn and
nothing faults; `Pool.run_alone` finds the turns of a pool that do this. `alone_foldlM` and
`leads_foldlM` are the rules for a loop over a list.
-/

namespace LumaOS.Base

namespace Prog

variable {κ κ' σ τ ε α β φ : Type}

/-! ## Parts of a state -/

/-- The call on the part that `get` and `put` reach. -/
def zoom (get : τ → σ) (put : σ → τ → τ) (relabel : κ → κ') : Prog κ σ ε α → Prog κ' τ ε α
  | done r => done r
  | act label effect next fault =>
    act (relabel label) (fun t => put (effect (get t)) t)
      (fun t => (next (get t)).zoom get put relabel) fun e => (fault e).zoom get put relabel

theorem Follows.zoom {A : φ → κ → σ → σ → φ → Prop} {P : φ → σ → Prop}
    {A' : φ → κ' → τ → τ → φ → Prop} {P' : φ → τ → Prop} {get : τ → σ} {put : σ → τ → τ}
    {relabel : κ → κ'} {p : Prog κ σ ε α} {phase : φ} {Q : φ → Except ε α → Prop}
    (h : Follows A P p phase Q) (hp : ∀ φ t, P' φ t → P φ (get t))
    (ha : ∀ φ label t s φ', P' φ t → A φ label (get t) s φ' → A' φ (relabel label) t (put s t) φ') :
    Follows A' P' (p.zoom get put relabel) phase Q := by
  induction p generalizing phase with
  | done r => exact h
  | act label effect next fault ihnext ihfault =>
    refine ⟨fun t ht => ?_, fun e => ihfault e (h.2 e)⟩
    obtain ⟨phase', hstep, hnext⟩ := h.1 (get t) (hp _ _ ht)
    exact ⟨phase', ha _ _ _ _ _ ht hstep, ihnext (get t) hnext⟩

/-! ## Loops -/

section Loops

variable {A : φ → κ → σ → σ → φ → Prop} {P : φ → σ → Prop} {phase : φ}

/-- A loop whose turns keep the phase. -/
theorem leads_foldlM {f : β → α → Prog κ σ ε β} {I : β → Prop} :
    ∀ {xs : List α} {b : β}, (∀ x ∈ xs, ∀ b, I b → Leads A P (f b x) phase fun φ b' =>
      φ = phase ∧ I b') → I b → Leads A P (xs.foldlM f b) phase fun φ b' => φ = phase ∧ I b'
  | [], b, _, hb => leads_pure ⟨rfl, hb⟩
  | x :: xs, b, hf, hb => by
    rw [List.forall_mem_cons] at hf
    rw [List.foldlM_cons]
    refine leads_bind (hf.1 b hb) fun φ b' hb' => ?_
    rw [hb'.1]
    exact leads_foldlM hf.2 hb'.2

end Loops

/-! ## Calls on their own -/

/-- What a call returns and leaves when it has the state for itself. -/
def alone : Prog κ σ ε α → σ → Except ε α × σ
  | done r, s => (r, s)
  | act _ effect next _, s => (next s).alone (effect s)

variable {p : Prog κ σ ε α} {f : α → Prog κ σ ε β} {s s' : σ} {a : α} {e : ε}

theorem alone_bind_of_ok (h : p.alone s = (.ok a, s')) : (p >>= f).alone s = (f a).alone s' := by
  induction p generalizing s with
  | done r =>
    obtain ⟨rfl, rfl⟩ := Prod.mk.inj h
    rfl
  | act label effect next fault ihnext ihfault => exact ihnext s h

theorem alone_bind_of_error (h : p.alone s = (.error e, s')) :
    (p >>= f).alone s = (.error e, s') := by
  induction p generalizing s with
  | done r =>
    obtain ⟨rfl, rfl⟩ := Prod.mk.inj h
    rfl
  | act label effect next fault ihnext ihfault => exact ihnext s h

theorem alone_transaction {label : κ} {body : Proc ε σ α} (h : Proc.exec body s = (.ok a, s')) :
    (transaction label body).alone s = (.ok a, s') := by
  simp only [transaction, alone, h]

/-- A transaction that reads. -/
theorem alone_reads {label : κ} {body : Proc ε σ α} {r : Except ε α}
    (h : Proc.exec body s = (r, s)) : (transaction label body).alone s = (r, s) := by
  simp only [transaction, alone, h]
  cases r <;> rfl

/-- A loop that only reads computes a fold. -/
theorem alone_foldlM {f : β → α → Prog κ σ ε β} {g : β → α → Except ε β} :
    ∀ {xs : List α} {b : β}, (∀ x ∈ xs, ∀ b, (f b x).alone s = (g b x, s)) →
      (xs.foldlM f b).alone s = (xs.foldlM g b, s)
  | [], _, _ => rfl
  | x :: xs, b, h => by
    rw [List.forall_mem_cons] at h
    rw [List.foldlM_cons, List.foldlM_cons]
    cases hx : g b x with
    | error e =>
      exact alone_bind_of_error (hx ▸ h.1 b)
    | ok b' =>
      rw [alone_bind_of_ok (hx ▸ h.1 b)]
      exact alone_foldlM h.2

end Prog

/-! ## In a pool -/

namespace Pool

variable {κ σ ε α : Type}

/-- `n` turns of one call, without a fault. -/
def solo (i n : Nat) : List (Turn ε) := List.replicate n ⟨i, none⟩

/-- A call that gets no turn stays where it is. -/
theorem calls_run {i : Nat} : ∀ {ts : List (Turn ε)} {p : Pool κ σ ε α},
    (∀ t ∈ ts, t.call ≠ i) → (p.run ts).calls[i]? = p.calls[i]?
  | [], _, _ => rfl
  | t :: ts, p, h => by
    rw [List.forall_mem_cons] at h
    rw [run_cons, calls_run h.2]
    unfold turn
    split
    · split <;> exact List.getElem?_set_ne h.1
    · rfl

theorem run_alone {p : Pool κ σ ε α} {i : Nat} {call : Prog κ σ ε α}
    (h : p.calls[i]? = some call) : ∃ n, (p.run (solo i n)).shared = (call.alone p.shared).2 ∧
      (p.run (solo i n)).calls[i]? = some (.done (call.alone p.shared).1) := by
  induction call generalizing p with
  | done r => exact ⟨0, rfl, h⟩
  | act label effect next fault ihnext ihfault =>
    have hi : i < p.calls.length := (List.getElem?_eq_some_iff.mp h).1
    have hturn : p.turn ⟨i, none⟩ = ⟨effect p.shared, p.calls.set i (next p.shared),
        p.history ++ [⟨i, label, p.shared, effect p.shared⟩]⟩ := by
      simp only [turn, h]
    obtain ⟨n, hn⟩ := ihnext p.shared (p := p.turn ⟨i, none⟩) (by
      rw [hturn]
      exact List.getElem?_set_self hi)
    refine ⟨n + 1, ?_⟩
    rw [solo, List.replicate_succ, run_cons]
    rw [show (p.turn ⟨i, none⟩).shared = effect p.shared by rw [hturn]] at hn
    exact hn

/-- However many turns it took. -/
theorem alone_of_run {i : Nat} : ∀ {n : Nat} {p : Pool κ σ ε α} {call : Prog κ σ ε α}
    {r : Except ε α}, p.calls[i]? = some call → (p.run (solo i n)).calls[i]? = some (.done r) →
      call.alone p.shared = (r, (p.run (solo i n)).shared)
  | 0, p, call, r, h, hdone => by
    rw [solo, List.replicate_zero, run_nil] at hdone ⊢
    obtain rfl : call = .done r := Option.some.inj (h.symm.trans hdone)
    rfl
  | n + 1, p, call, r, h, hdone => by
    rw [solo, List.replicate_succ, run_cons] at hdone ⊢
    have hi : i < p.calls.length := (List.getElem?_eq_some_iff.mp h).1
    cases call with
    | done r' =>
      have hturn : p.turn ⟨i, none⟩ = p := by simp only [turn, h]
      rw [hturn] at hdone ⊢
      exact alone_of_run h hdone
    | act label effect next fault =>
      have hturn : p.turn ⟨i, none⟩ = ⟨effect p.shared, p.calls.set i (next p.shared),
          p.history ++ [⟨i, label, p.shared, effect p.shared⟩]⟩ := by
        simp only [turn, h]
      rw [hturn] at hdone ⊢
      exact alone_of_run (List.getElem?_set_self hi) hdone

end Pool

end LumaOS.Base
