import LumaOS.Base.Run
import Mathlib.Logic.Function.Basic

/-!
# Calls that interleave on a shared state

A call on a shared state is a `Prog`: a finite tree of atomic actions. An action sees the state and
changes it in one go, under a label that says what it is; it can also fault, which leaves the state
and raises. A transaction that raises is rolled back (`transaction`).

A `Pool` runs any number of calls, one action at a time, in the order a list of turns gives. A call
that gets no more turns has crashed or not begun, so a statement for every list of turns is about
every interleaving and every crash. `history` keeps the actions taken.

Proofs go over the *phases* of the calls. `Follows A P p φ Q` says that `p`, in phase `φ`, takes only
steps that `A` allows, as long as what `P` says of its phase is true whenever it acts, and ends in
`Q`. The rules follow the shape of a body (`follows_bind`, `follows_tryCatch`,
`follows_transaction`); `Leads` is the same for calls of which only the return matters.

* **`Pool.rule`**: an invariant of history, state and phases that every allowed step keeps, and that
  gives every call what its phase promises, holds after every list of turns.
-/

namespace LumaOS.Base

/-! ## Bodies of transactions -/

namespace Proc

variable {ε σ α β : Type} {m : Proc ε σ α} {f : α → Proc ε σ β} {s : σ}
  {T T' : α → σ → Prop} {U : β → σ → Prop}

/-- Where `m` returns, `T` holds of the value and the state it leaves. What a transaction leaves
where it raises is rolled back. -/
def Returns (m : Proc ε σ α) (s : σ) (T : α → σ → Prop) : Prop :=
  Ends m s fun r t => ∀ a, r = .ok a → T a t

theorem Returns.mono (h : Returns m s T) (ht : ∀ a t, T a t → T' a t) : Returns m s T' :=
  fun a ha => ht a _ (h a ha)

theorem returns_pure {a : α} (h : T a s) : Returns (pure a : Proc ε σ α) s T := by
  intro b hb
  cases hb
  exact h

theorem returns_modify {g : σ → σ} {T : PUnit → σ → Prop} (h : T .unit (g s)) :
    Returns (modify g : Proc ε σ PUnit) s T := by
  intro b hb
  cases hb
  exact h

theorem returns_lift {r : Except ε α} (h : ∀ a, r = .ok a → T a s) :
    Returns (liftM r : Proc ε σ α) s T := h

theorem returns_bind (h : Returns m s fun a t => Returns (f a) t U) : Returns (m >>= f) s U := by
  refine ends_bind (Ends.mono h fun r t hr => ⟨hr, ?_⟩)
  rintro e rfl b hb
  cases hb

theorem returns_bind_get {f : σ → Proc ε σ β} (h : Returns (f s) s U) : Returns (get >>= f) s U := h

theorem returns_bind_modify {g : σ → σ} {f : PUnit → Proc ε σ β} (h : Returns (f .unit) (g s) U) :
    Returns (modify g >>= f) s U := h

theorem returns_bind_lift {r : Except ε α} (h : ∀ a, r = .ok a → Returns (f a) s U) :
    Returns (liftM r >>= f) s U :=
  returns_bind (returns_lift h)

theorem returns_bind_raiseIf {c : Bool} {e : ε} {f : Unit → Proc ε σ β}
    (h : c = false → Returns (f ()) s U) : Returns (liftM (raiseIf c e) >>= f) s U :=
  returns_bind_lift fun _ hc => h (raiseIf_eq_ok.mp hc)

end Proc

/-! ## Calls -/

/-- A call: the atomic actions it may still take. -/
inductive Prog (κ σ ε α : Type) where
  | done (result : Except ε α)
  | act (label : κ) (effect : σ → σ) (next : σ → Prog κ σ ε α) (fault : ε → Prog κ σ ε α)

namespace Prog

variable {κ σ ε α β φ : Type}

protected def bind : Prog κ σ ε α → (α → Prog κ σ ε β) → Prog κ σ ε β
  | done (.ok a), f => f a
  | done (.error e), _ => done (.error e)
  | act label effect next fault, f =>
    act label effect (fun s => (next s).bind f) fun e => (fault e).bind f

instance instMonad : Monad (Prog κ σ ε) where
  pure a := done (.ok a)
  bind := Prog.bind

/-- `raise e`. -/
def raise (e : ε) : Prog κ σ ε α := done (.error e)

/-- A pure computation that may raise. -/
def lift (r : Except ε α) : Prog κ σ ε α := done r

/-- `try: p` with a handler for every exception. -/
def tryCatch : Prog κ σ ε α → (ε → Prog κ σ ε α) → Prog κ σ ε α
  | done (.ok a), _ => done (.ok a)
  | done (.error e), handler => handler e
  | act label effect next fault, handler =>
    act label effect (fun s => (next s).tryCatch handler) fun e => (fault e).tryCatch handler

/-- One transaction: it commits what `body` leaves, or rolls back and raises. -/
def transaction (label : κ) (body : Proc ε σ α) : Prog κ σ ε α :=
  act label
    (fun s =>
      match Proc.exec body s with
      | (.ok _, s') => s'
      | (.error _, _) => s)
    (fun s => done (Proc.exec body s).1) fun e => done (.error e)

/-! ## What a call follows -/

/-- **A call follows an abstract one.** `A φ label s s' φ'` is an allowed step, `P φ s` what phase
`φ` knows of the state, and `Q` where the call may end. A fault keeps the phase. -/
def Follows (A : φ → κ → σ → σ → φ → Prop) (P : φ → σ → Prop) :
    Prog κ σ ε α → φ → (φ → Except ε α → Prop) → Prop
  | done r, φ, Q => Q φ r
  | act label effect next fault, φ, Q =>
    (∀ s, P φ s → ∃ φ', A φ label s (effect s) φ' ∧ Follows A P (next s) φ' Q) ∧
      ∀ e, Follows A P (fault e) φ Q

section Follows

variable {A : φ → κ → σ → σ → φ → Prop} {P : φ → σ → Prop} {phase : φ}
  {Q Q' : φ → Except ε α → Prop} {R : φ → Except ε β → Prop}

theorem follows_pure {a : α} (h : Q phase (.ok a)) :
    Follows A P (pure a : Prog κ σ ε α) phase Q := h

theorem follows_raise {e : ε} (h : Q phase (.error e)) :
    Follows A P (raise e : Prog κ σ ε α) phase Q := h

theorem Follows.mono {p : Prog κ σ ε α} (h : Follows A P p phase Q)
    (hq : ∀ φ r, Q φ r → Q' φ r) : Follows A P p phase Q' := by
  induction p generalizing phase with
  | done r => exact hq phase r h
  | act label effect next fault ihnext ihfault =>
    refine ⟨fun s hs => ?_, fun e => ihfault e (h.2 e)⟩
    obtain ⟨phase', hstep, hnext⟩ := h.1 s hs
    exact ⟨phase', hstep, ihnext s hnext⟩

/-- A call follows whatever allows more. -/
theorem Follows.allow {A' : φ → κ → σ → σ → φ → Prop} {p : Prog κ σ ε α}
    (h : Follows A P p phase Q) (ha : ∀ φ label s s' φ', A φ label s s' φ' → A' φ label s s' φ') :
    Follows A' P p phase Q := by
  induction p generalizing phase with
  | done r => exact h
  | act label effect next fault ihnext ihfault =>
    refine ⟨fun s hs => ?_, fun e => ihfault e (h.2 e)⟩
    obtain ⟨phase', hstep, hnext⟩ := h.1 s hs
    exact ⟨phase', ha _ _ _ _ _ hstep, ihnext s hnext⟩

theorem follows_bind {p : Prog κ σ ε α} {f : α → Prog κ σ ε β} (h : Follows A P p phase Q)
    (hok : ∀ φ a, Q φ (.ok a) → Follows A P (f a) φ R)
    (herror : ∀ φ e, Q φ (.error e) → R φ (.error e)) : Follows A P (p >>= f) phase R := by
  induction p generalizing phase with
  | done r =>
    cases r with
    | ok a => exact hok phase a h
    | error e => exact herror phase e h
  | act label effect next fault ihnext ihfault =>
    refine ⟨fun s hs => ?_, fun e => ihfault e (h.2 e)⟩
    obtain ⟨phase', hstep, hnext⟩ := h.1 s hs
    exact ⟨phase', hstep, ihnext s hnext⟩

theorem follows_bind_lift {r : Except ε α} {f : α → Prog κ σ ε β}
    (hok : ∀ a, r = .ok a → Follows A P (f a) phase R) (herror : ∀ e, R phase (.error e)) :
    Follows A P (lift r >>= f) phase R := by
  cases r with
  | ok a => exact hok a rfl
  | error e => exact herror e

theorem follows_tryCatch {p : Prog κ σ ε α} {handler : ε → Prog κ σ ε α}
    (h : Follows A P p phase Q) (hok : ∀ φ a, Q φ (.ok a) → Q' φ (.ok a))
    (herror : ∀ φ e, Q φ (.error e) → Follows A P (handler e) φ Q') :
    Follows A P (p.tryCatch handler) phase Q' := by
  induction p generalizing phase with
  | done r =>
    cases r with
    | ok a => exact hok phase a h
    | error e => exact herror phase e h
  | act label effect next fault ihnext ihfault =>
    refine ⟨fun s hs => ?_, fun e => ihfault e (h.2 e)⟩
    obtain ⟨phase', hstep, hnext⟩ := h.1 s hs
    exact ⟨phase', hstep, ihnext s hnext⟩

/-- A transaction follows if it does where it returns; where it raises it took a step that changed
nothing. -/
theorem follows_transaction {label : κ} {body : Proc ε σ α}
    (h : ∀ s, P phase s → Proc.Returns body s fun a s' => ∃ φ', A phase label s s' φ' ∧ Q φ' (.ok a))
    (herror : ∀ s, P phase s → A phase label s s phase) (hfault : ∀ e, Q phase (.error e)) :
    Follows A P (transaction label body) phase Q := by
  refine ⟨fun s hs => ?_, hfault⟩
  have hreturns := h s hs
  unfold Proc.Returns Proc.Ends at hreturns
  rcases hexec : Proc.exec body s with ⟨e | a, s'⟩
  · refine ⟨phase, ?_, ?_⟩
    · simpa only [hexec] using herror s hs
    · simpa only [Follows, hexec] using hfault e
  · rw [hexec] at hreturns
    simpa only [Follows, hexec] using hreturns a rfl

/-! ## Where a call returns -/

/-- A call that follows, with `Q` where it returns and nothing said of where it raises. -/
def Leads (A : φ → κ → σ → σ → φ → Prop) (P : φ → σ → Prop) (p : Prog κ σ ε α) (phase : φ)
    (Q : φ → α → Prop) : Prop :=
  Follows A P p phase fun φ r => ∀ a, r = .ok a → Q φ a

section Leads

variable {Q Q' : φ → α → Prop} {R : φ → β → Prop} {p : Prog κ σ ε α} {f : α → Prog κ σ ε β}

theorem leads_pure {a : α} (h : Q phase a) : Leads A P (pure a : Prog κ σ ε α) phase Q := by
  intro b hb
  cases hb
  exact h

theorem leads_raise {e : ε} : Leads A P (raise e : Prog κ σ ε α) phase Q := by
  intro b hb
  cases hb

theorem leads_lift {r : Except ε α} (h : ∀ a, r = .ok a → Q phase a) :
    Leads A P (lift r : Prog κ σ ε α) phase Q := h

theorem Leads.mono (h : Leads A P p phase Q) (hq : ∀ φ a, Q φ a → Q' φ a) :
    Leads A P p phase Q' :=
  Follows.mono h fun φ _ hr a ha => hq φ a (hr a ha)

theorem leads_bind (h : Leads A P p phase Q) (hok : ∀ φ a, Q φ a → Leads A P (f a) φ R) :
    Leads A P (p >>= f) phase R :=
  follows_bind h (fun φ a ha => hok φ a (ha a rfl)) fun _ _ _ b hb => by cases hb

theorem leads_bind_lift {r : Except ε α} (hok : ∀ a, r = .ok a → Leads A P (f a) phase R) :
    Leads A P (lift r >>= f) phase R :=
  follows_bind_lift hok fun _ b hb => by cases hb

theorem leads_bind_raiseIf {c : Bool} {e : ε} {f : Unit → Prog κ σ ε β}
    (h : c = false → Leads A P (f ()) phase R) : Leads A P (lift (raiseIf c e) >>= f) phase R :=
  leads_bind_lift fun _ hc => h (raiseIf_eq_ok.mp hc)

theorem leads_raiseIf {c : Bool} {e : ε} {Q : φ → Unit → Prop} (h : c = false → Q phase ()) :
    Leads A P (lift (raiseIf c e) : Prog κ σ ε Unit) phase Q :=
  leads_lift fun _ hc => h (raiseIf_eq_ok.mp hc)

theorem leads_tryCatch {handler : ε → Prog κ σ ε α} (h : Leads A P p phase Q)
    (herror : ∀ φ e, Leads A P (handler e) φ Q) : Leads A P (p.tryCatch handler) phase Q :=
  follows_tryCatch h (fun _ _ ha => ha) fun φ e _ => herror φ e

theorem leads_transaction {label : κ} {body : Proc ε σ α}
    (h : ∀ s, P phase s → Proc.Returns body s fun a s' => ∃ φ', A phase label s s' φ' ∧ Q φ' a)
    (herror : ∀ s, P phase s → A phase label s s phase) :
    Leads A P (transaction label body) phase Q := by
  refine follows_transaction (fun s hs => (h s hs).mono ?_) herror fun _ _ he => by cases he
  rintro a s' ⟨φ', hstep, hq⟩
  refine ⟨φ', hstep, fun b hb => ?_⟩
  cases hb
  exact hq

end Leads

end Follows

end Prog

/-! ## Pools -/

/-- One action that was taken. -/
structure Taken (κ σ : Type) where
  call : Nat
  label : κ
  before : σ
  after : σ

/-- Calls on a shared state. -/
structure Pool (κ σ ε α : Type) where
  shared : σ
  calls : List (Prog κ σ ε α)
  history : List (Taken κ σ)

namespace Pool

variable {κ σ ε α φ : Type}

/-- Whose turn it is, and whether its action faults. -/
structure Turn (ε : Type) where
  call : Nat
  fault : Option ε

/-- The calls at the start, on `s`. -/
def start (s : σ) (calls : List (Prog κ σ ε α)) : Pool κ σ ε α := ⟨s, calls, []⟩

/-- One turn; a turn of a call that has ended does nothing. -/
def turn (p : Pool κ σ ε α) (t : Turn ε) : Pool κ σ ε α :=
  match p.calls[t.call]? with
  | some (.act label effect next fault) =>
    match t.fault with
    | none =>
      { shared := effect p.shared
        calls := p.calls.set t.call (next p.shared)
        history := p.history ++ [⟨t.call, label, p.shared, effect p.shared⟩] }
    | some e => { p with calls := p.calls.set t.call (fault e) }
  | _ => p

def run (p : Pool κ σ ε α) (turns : List (Turn ε)) : Pool κ σ ε α := turns.foldl turn p

@[simp] theorem run_nil (p : Pool κ σ ε α) : p.run [] = p := rfl

@[simp] theorem run_cons (p : Pool κ σ ε α) (t : Turn ε) (ts : List (Turn ε)) :
    p.run (t :: ts) = (p.turn t).run ts := rfl

theorem run_append (p : Pool κ σ ε α) (ts us : List (Turn ε)) :
    p.run (ts ++ us) = (p.run ts).run us := List.foldl_append

/-- The action that call `i` takes next. -/
def performs (p : Pool κ σ ε α) (i : Nat) (label : κ) (s' : σ) : Prop :=
  ∃ effect next fault, p.calls[i]? = some (.act label effect next fault) ∧ s' = effect p.shared

theorem turn_history (p : Pool κ σ ε α) (t : Turn ε) :
    (p.turn t).history = p.history ∨ ∃ label s', p.performs t.call label s' ∧
      (p.turn t).history = p.history ++ [⟨t.call, label, p.shared, s'⟩] := by
  unfold turn
  split
  · rename_i label effect next fault hcall
    split
    · exact .inr ⟨label, _, ⟨effect, next, fault, hcall, rfl⟩, rfl⟩
    · exact .inl rfl
  · exact .inl rfl

theorem history_subset_run (p : Pool κ σ ε α) (ts : List (Turn ε)) {t : Taken κ σ}
    (h : t ∈ p.history) : t ∈ (p.run ts).history := by
  induction ts generalizing p with
  | nil => exact h
  | cons u us ih =>
    refine ih (p.turn u) ?_
    rcases p.turn_history u with heq | ⟨label, s', -, heq⟩
    · rw [heq]
      exact h
    · rw [heq]
      exact List.mem_append_left _ h

section Rule

variable {A : Nat → φ → κ → σ → σ → φ → Prop} {P : Nat → φ → σ → Prop}
  {Q : Nat → φ → Except ε α → Prop} {I : List (Taken κ σ) → σ → (Nat → φ) → Prop}
  {C : Taken κ σ → Prop} {p : Pool κ σ ε α} {phases : Nat → φ}

/-- The calls of a pool are in their phases and the invariant holds. -/
structure Tracks (A : Nat → φ → κ → σ → σ → φ → Prop) (P : Nat → φ → σ → Prop)
    (Q : Nat → φ → Except ε α → Prop) (I : List (Taken κ σ) → σ → (Nat → φ) → Prop)
    (p : Pool κ σ ε α) (phases : Nat → φ) : Prop where
  calls : ∀ (i : Nat) (call : Prog κ σ ε α), p.calls[i]? = some call →
    call.Follows (A i) (P i) (phases i) (Q i)
  holds : I p.history p.shared phases

/-- What the invariant must do: give every call what its phase knows, and survive every step that
is allowed and timely. -/
structure Keeps (A : Nat → φ → κ → σ → σ → φ → Prop) (P : Nat → φ → σ → Prop)
    (C : Taken κ σ → Prop) (I : List (Taken κ σ) → σ → (Nat → φ) → Prop) : Prop where
  known : ∀ {h s phases}, I h s phases → ∀ i, P i (phases i) s
  step : ∀ {h s phases}, I h s phases → ∀ {i label s' phase'}, C ⟨i, label, s, s'⟩ →
    A i (phases i) label s s' phase' →
    I (h ++ [⟨i, label, s, s'⟩]) s' (Function.update phases i phase')

theorem Tracks.turn (hkeeps : Keeps A P C I) (h : Tracks A P Q I p phases) (t : Turn ε)
    (hwhen : ∀ u ∈ (p.turn t).history, C u) : ∃ phases', Tracks A P Q I (p.turn t) phases' := by
  have hset : ∀ {i : Nat} {new : Prog κ σ ε α} {phase' : φ},
      new.Follows (A i) (P i) phase' (Q i) → ∀ (j : Nat) (call : Prog κ σ ε α),
      (p.calls.set i new)[j]? = some call →
      call.Follows (A j) (P j) (Function.update phases i phase' j) (Q j) := by
    intro i new phase' hnew j call hj
    by_cases hij : i = j
    · subst hij
      rw [List.getElem?_set_self'] at hj
      obtain ⟨_, -, rfl⟩ := Option.map_eq_some_iff.mp hj
      rw [Function.update_self]
      exact hnew
    · rw [List.getElem?_set_ne hij] at hj
      rw [Function.update_of_ne (Ne.symm hij)]
      exact h.calls j call hj
  unfold Pool.turn at hwhen ⊢
  split
  · rename_i label effect next fault hcall
    have hfollows := h.calls t.call _ hcall
    rw [hcall] at hwhen
    split
    · rename_i hfault
      rw [hfault] at hwhen
      obtain ⟨phase', hstep, hnext⟩ := hfollows.1 p.shared (hkeeps.known h.holds t.call)
      refine ⟨Function.update phases t.call phase', hset hnext, hkeeps.step h.holds ?_ hstep⟩
      exact hwhen _ (List.mem_append_right _ (List.mem_singleton.mpr rfl))
    · rename_i e hfault
      refine ⟨phases, fun j call hj => ?_, h.holds⟩
      have hj := hset (hfollows.2 e) j call hj
      rwa [Function.update_eq_self] at hj
  · exact ⟨phases, h⟩

/-- **The invariant rule**, for the lists of turns whose actions all satisfy `C`. -/
theorem rule (hkeeps : Keeps A P C I) (h : Tracks A P Q I p phases) (ts : List (Turn ε))
    (hwhen : ∀ t ∈ (p.run ts).history, C t) : ∃ phases', Tracks A P Q I (p.run ts) phases' := by
  induction ts generalizing p phases with
  | nil => exact ⟨phases, h⟩
  | cons t ts ih =>
    obtain ⟨phases', h'⟩ := h.turn hkeeps t fun u hu =>
      hwhen u ((p.turn t).history_subset_run ts hu)
    exact ih h' hwhen

end Rule

end Pool

end LumaOS.Base
