import LumaOS.Base.Fallible

/-!
# Runs of calls

A run is a list of calls of `&mut self` methods, failed ones included, each made on the `self` that
the one before it left. `trace` keeps, for every call, its result and the `self` around it.

* `trace_rule`: an invariant of the calls made so far and the `self` they left, kept by every call,
  holds before every call of a run.
* `trace_chain`: what every call does to a `self` in the invariant, if it is transitive, any stretch
  of the run does.
* `trace_stuck`: a `self` that every call refuses stays what it is.
-/

namespace LumaOS.Base

variable {σ ο α : Type}

/-- One call of a run, with the `self` before and after it. -/
structure Entry (σ ο α : Type) where
  before : σ
  op : ο
  result : Result α
  after : σ

/-- The run of a list of calls. -/
def trace (call : ο → Mut σ α) (s : σ) : List ο → List (Entry σ ο α)
  | [] => []
  | op :: ops =>
    let (result, s') := (call op).exec s
    ⟨s, op, result, s'⟩ :: trace call s' ops

section Rules

variable {call : ο → Mut σ α}

theorem trace_cons (s : σ) (op : ο) (ops : List ο) :
    trace call s (op :: ops) =
      ⟨s, op, ((call op).exec s).1, ((call op).exec s).2⟩ :: trace call ((call op).exec s).2 ops :=
  rfl

/-- **The invariant rule of a run.** -/
theorem trace_rule {I : List (Entry σ ο α) → σ → Prop} {T : σ → ο → Result α → σ → Prop}
    (hstep : ∀ past s op, I past s → (call op).Yields s fun r s' =>
      T s op r s' ∧ I (past ++ [⟨s, op, r, s'⟩]) s') (ops : List ο) :
    ∀ (before : List (Entry σ ο α)) {s : σ}, I before s →
      ∀ past e rest, trace call s ops = past ++ e :: rest →
        I (before ++ past) e.before ∧ T e.before e.op e.result e.after ∧
          I (before ++ past ++ [e]) e.after := by
  induction ops with
  | nil =>
    intro before s _ past e rest h
    exact absurd h (by simp [trace])
  | cons op ops ih =>
    intro before s hs past e rest h
    have hnext := hstep before s op hs
    unfold Mut.Yields at hnext
    rw [trace_cons] at h
    cases past with
    | nil =>
      obtain ⟨rfl, -⟩ := List.cons.inj h
      rw [List.append_nil]
      exact ⟨hs, hnext⟩
    | cons first past =>
      obtain ⟨rfl, hrest⟩ := List.cons.inj h
      have := ih _ hnext.2 past e rest hrest
      rwa [List.append_assoc, List.singleton_append] at this

/-- The rule for an invariant of the `self` alone. -/
theorem trace_invariant {I : σ → Prop} {T : σ → ο → Result α → σ → Prop}
    (hstep : ∀ s op, I s → (call op).Yields s fun r s' => T s op r s' ∧ I s') {s : σ} (hs : I s)
    (ops : List ο) :
    ∀ e ∈ trace call s ops, I e.before ∧ T e.before e.op e.result e.after ∧ I e.after := by
  intro e he
  obtain ⟨past, rest, h⟩ := List.append_of_mem he
  exact trace_rule (I := fun _ s => I s) (fun _ => hstep) ops [] hs past e rest h

/-- The rule for an invariant that only some calls keep, over a run of those. -/
theorem trace_among {I : σ → Prop} {C : ο → Prop}
    (hstep : ∀ s op, C op → I s → (call op).Yields s fun _ s' => I s') {ops : List ο}
    (hops : ∀ op ∈ ops, C op) : ∀ {s : σ}, I s → ∀ e ∈ trace call s ops, I e.after := by
  induction ops with
  | nil => exact fun _ e he => absurd he List.not_mem_nil
  | cons op ops ih =>
    intro s hs e he
    obtain ⟨hop, hrest⟩ := List.forall_mem_cons.mp hops
    have hnext := hstep s op hop hs
    rw [trace_cons] at he
    rcases List.mem_cons.mp he with rfl | he
    · exact hnext
    · exact ih hrest hnext e he

/-- What an invariant of the calls made says of the whole run. -/
theorem trace_whole {I : List (Entry σ ο α) → σ → Prop}
    (hstep : ∀ past s op, I past s → (call op).Yields s fun r s' =>
      I (past ++ [⟨s, op, r, s'⟩]) s') (ops : List ο) :
    ∀ {s : σ} {before : List (Entry σ ο α)}, I before s →
      ∃ s', I (before ++ trace call s ops) s' := by
  induction ops with
  | nil =>
    intro s before hs
    rw [trace, List.append_nil]
    exact ⟨s, hs⟩
  | cons op ops ih =>
    intro s before hs
    have := ih (hstep before s op hs)
    rwa [List.append_assoc, List.singleton_append] at this

/-- **What every call does, any stretch of the run does.** -/
theorem trace_chain {I : σ → Prop} {R : σ → σ → Prop} (htrans : ∀ a b c, R a b → R b c → R a c)
    (hstep : ∀ s op, I s → (call op).Yields s fun _ s' => R s s' ∧ I s') (ops : List ο) :
    ∀ {s : σ}, I s → (s :: (trace call s ops).map Entry.after).Pairwise R := by
  induction ops with
  | nil => exact fun {s} _ => List.pairwise_singleton _ s
  | cons op ops ih =>
    intro s hs
    obtain ⟨hnext, hs'⟩ := hstep s op hs
    have hrest := ih hs'
    rw [trace_cons, List.map_cons]
    refine List.pairwise_cons.mpr ⟨fun t ht => ?_, hrest⟩
    rcases List.mem_cons.mp ht with rfl | ht
    · exact hnext
    · exact htrans _ _ _ hnext ((List.pairwise_cons.mp hrest).1 t ht)

/-- What follows a call in a run is a run. -/
theorem trace_after {ops : List ο} : ∀ {s : σ} {past rest : List (Entry σ ο α)} {e : Entry σ ο α},
    trace call s ops = past ++ e :: rest → ∃ ops', rest = trace call e.after ops' := by
  induction ops with
  | nil =>
    intro s past rest e h
    exact absurd h (by simp [trace])
  | cons op ops ih =>
    intro s past rest e h
    rw [trace_cons] at h
    cases past with
    | nil =>
      obtain ⟨rfl, rfl⟩ := List.cons.inj h
      exact ⟨ops, rfl⟩
    | cons first past => exact ih (List.cons.inj h).2

theorem trace_stuck {s : σ}
    (h : ∀ op, (call op).Yields s fun r s' => (∃ stop, r = .error stop) ∧ s' = s) (ops : List ο) :
    ∀ e ∈ trace call s ops, (∃ stop, e.result = .error stop) ∧ e.after = s := by
  induction ops with
  | nil => exact fun e he => absurd he List.not_mem_nil
  | cons op ops ih =>
    intro e he
    have hop := h op
    rw [trace_cons, show ((call op).exec s).2 = s from hop.2] at he
    rcases List.mem_cons.mp he with rfl | he
    · exact ⟨hop.1, rfl⟩
    · exact ih e he

end Rules

end LumaOS.Base
