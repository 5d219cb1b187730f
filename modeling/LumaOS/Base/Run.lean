import LumaOS.Base.Fallible
import Mathlib.Data.List.Forall2

/-!
# Exceptions and runs of a pure step

A Python function that raises is `Except ε`, with `ε` the exceptions of its module. `Gives P Q x`
says which exceptions `x` can raise and what it returns; it follows the shape of a body
(`gives_bind`, `gives_bind_raiseIf`).

A run is a list of requests to a step function that returns a reply and the state to go on from.
`events` keeps every request with its reply and the states around it.

* `events_when`, `events_rule`: an invariant of the requests so far and the state they left holds at
  every event.
* `events_chain_when`, `events_chain`: what every event does to a state in the invariant, if it is
  transitive, any stretch of the run does.

A method that writes to its object before it raises is a `Proc`; `Proc.Ends` is its contract.

`InOrder` says that a list of events holds some of given kinds in a given order.
-/

namespace LumaOS.Base

variable {ε α β : Type}

/-! ## Exceptions -/

/-- `if condition: raise e`. -/
def raiseIf (condition : Bool) (e : ε) : Except ε Unit := if condition then .error e else .ok ()

theorem raiseIf_eq_ok {c : Bool} {e : ε} {u : Unit} : raiseIf c e = .ok u ↔ c = false := by
  cases c <;> simp [raiseIf]

variable {P : ε → Prop}

/-- What `x` returns satisfies `Q`, and what it raises satisfies `P`. -/
def Gives (P : ε → Prop) (Q : α → Prop) : Except ε α → Prop
  | .ok a => Q a
  | .error e => P e

section Gives

variable {Q : α → Prop} {R : β → Prop}

variable {x : Except ε α} {f : α → Except ε β} {c : Bool} {e : ε}

theorem Gives.mono {Q' : α → Prop} (h : Gives P Q x) (hq : ∀ a, Q a → Q' a) :
    Gives P Q' x := by
  cases x with
  | error e => exact h
  | ok a => exact hq a h

theorem Gives.mono_error {P' : ε → Prop} (h : Gives P Q x) (hp : ∀ e, P e → P' e) :
    Gives P' Q x := by
  cases x with
  | error e => exact hp e h
  | ok a => exact h

/-- What `x` returns is what it returned. -/
theorem Gives.self (h : Gives P Q x) : Gives P (fun a => x = .ok a ∧ Q a) x := by
  cases x with
  | error e => exact h
  | ok a => exact ⟨rfl, h⟩

/-- What raises nothing returns. -/
theorem Gives.exists_ok (h : Gives (fun _ => False) Q x) : ∃ a, x = .ok a ∧ Q a := by
  cases x with
  | error e => exact h.elim
  | ok a => exact ⟨a, rfl, h⟩

theorem gives_bind (hx : Gives P Q x) (hf : ∀ a, Q a → Gives P R (f a)) : Gives P R (x >>= f) := by
  cases x with
  | error e => exact hx
  | ok a => exact hf a hx

theorem gives_bind_any (hf : ∀ a, x = .ok a → Gives (fun _ => True) R (f a)) :
    Gives (fun _ => True) R (x >>= f) := by
  cases x with
  | error e => exact trivial
  | ok a => exact hf a rfl

theorem gives_bind_ok {a : α} (hx : x = .ok a) (hf : Gives P R (f a)) : Gives P R (x >>= f) := by
  subst hx
  exact hf

theorem gives_raiseIf {Q : Unit → Prop} (he : c = true → P e) (hq : c = false → Q ()) :
    Gives P Q (raiseIf c e) := by
  cases c with
  | true => exact he rfl
  | false => exact hq rfl

theorem gives_bind_raiseIf {f : Unit → Except ε β} (he : c = true → P e)
    (hf : c = false → Gives P R (f ())) : Gives P R (raiseIf c e >>= f) := by
  cases c with
  | true => exact he rfl
  | false => exact hf rfl

end Gives

/-! ## Runs -/

variable {σ ο ρ : Type}

/-- A reply that carries the next state, or an exception that leaves the state. -/
def settle (next : ρ → σ) (s : σ) : Except ε ρ → Except ε ρ × σ
  | .ok r => (.ok r, next r)
  | .error e => (.error e, s)

/-- One request of a run, with the states around it. -/
structure Event (σ ο ρ : Type) where
  before : σ
  op : ο
  result : ρ
  after : σ

/-- The run of a list of requests. -/
def events (step : σ → ο → ρ × σ) (s : σ) : List ο → List (Event σ ο ρ)
  | [] => []
  | op :: ops => ⟨s, op, (step s op).1, (step s op).2⟩ :: events step (step s op).2 ops

section Rules

variable {step : σ → ο → ρ × σ}

variable {D : Event σ ο ρ → Prop} {ops : List ο}

/-- The event is one of the step function. -/
def Event.Is (step : σ → ο → ρ × σ) (e : Event σ ο ρ) : Prop :=
  step e.before e.op = (e.result, e.after)

/-- **The invariant rule of a run** whose events satisfy `D`. -/
theorem events_when {I : List (Event σ ο ρ) → σ → Prop}
    (hstep : ∀ past e, D e → I past e.before → e.Is step → I (past ++ [e]) e.after) :
    ∀ (before : List (Event σ ο ρ)) {s : σ}, (∀ e ∈ events step s ops, D e) → I before s →
      ∀ past e rest, events step s ops = past ++ e :: rest →
        I (before ++ past) e.before ∧ D e ∧ e.Is step ∧ I (before ++ past ++ [e]) e.after := by
  induction ops with
  | nil =>
    intro before s _ _ past e rest h
    exact absurd h (by simp [events])
  | cons op ops ih =>
    intro before s hD hs past e rest h
    rw [events] at hD h
    rw [List.forall_mem_cons] at hD
    have hnext := hstep before ⟨s, op, (step s op).1, (step s op).2⟩ hD.1 hs rfl
    cases past with
    | nil =>
      obtain ⟨rfl, -⟩ := List.cons.inj h
      rw [List.append_nil]
      exact ⟨hs, hD.1, rfl, hnext⟩
    | cons first past =>
      obtain ⟨rfl, hrest⟩ := List.cons.inj h
      have := ih _ hD.2 hnext past e rest hrest
      rwa [List.append_assoc, List.singleton_append] at this

/-- **What every event does, any stretch of the run does.** -/
theorem events_chain_when {I : σ → Prop} {R : σ → σ → Prop}
    (htrans : ∀ a b c, R a b → R b c → R a c)
    (hstep : ∀ e : Event σ ο ρ, D e → I e.before → e.Is step → R e.before e.after ∧ I e.after) :
    ∀ {s : σ}, (∀ e ∈ events step s ops, D e) → I s →
      (s :: (events step s ops).map Event.after).Pairwise R := by
  induction ops with
  | nil => exact fun {s} _ _ => List.pairwise_singleton _ s
  | cons op ops ih =>
    intro s hD hs
    rw [events] at hD ⊢
    rw [List.forall_mem_cons] at hD
    obtain ⟨hnext, hs'⟩ := hstep ⟨s, op, (step s op).1, (step s op).2⟩ hD.1 hs rfl
    have hrest := ih hD.2 hs'
    rw [List.map_cons]
    refine List.pairwise_cons.mpr ⟨fun t ht => ?_, hrest⟩
    rcases List.mem_cons.mp ht with rfl | ht
    · exact hnext
    · exact htrans _ _ _ hnext ((List.pairwise_cons.mp hrest).1 t ht)

/-- An invariant of the events holds in every state that the run goes through. -/
theorem states_when {I : σ → Prop}
    (hstep : ∀ e : Event σ ο ρ, D e → I e.before → e.Is step → I e.after) {s : σ}
    (hD : ∀ e ∈ events step s ops, D e) (hs : I s) :
    ∀ t ∈ s :: (events step s ops).map Event.after, I t := by
  have hchain := events_chain_when (R := fun _ t => I t) (fun _ _ _ _ h => h)
    (fun e hD hI his => ⟨hstep e hD hI his, hstep e hD hI his⟩) hD hs
  exact List.forall_mem_cons.mpr ⟨hs, (List.pairwise_cons.mp hchain).1⟩

theorem is_of_mem_events {e : Event σ ο ρ} : ∀ {s : σ}, e ∈ events step s ops →
    e.Is step := by
  induction ops with
  | nil => exact fun h => absurd h List.not_mem_nil
  | cons op ops ih =>
    intro s h
    rcases List.mem_cons.mp h with rfl | h
    · exact rfl
    · exact ih h

/-- What holds along a run holds across each of its events. -/
theorem event_of_pairwise {R : σ → σ → Prop} : ∀ {s : σ},
    (s :: (events step s ops).map Event.after).Pairwise R →
      ∀ e ∈ events step s ops, R e.before e.after := by
  induction ops with
  | nil => exact fun _ e he => absurd he List.not_mem_nil
  | cons op ops ih =>
    intro s h e he
    rw [events, List.map_cons] at h
    obtain ⟨hhead, hrest⟩ := List.pairwise_cons.mp h
    rcases List.mem_cons.mp he with rfl | he
    · exact hhead _ List.mem_cons_self
    · exact ih hrest e he

theorem op_mem_of_mem_events {e : Event σ ο ρ} :
    ∀ {s : σ}, e ∈ events step s ops → e.op ∈ ops := by
  induction ops with
  | nil => exact fun h => absurd h List.not_mem_nil
  | cons op ops ih =>
    intro s h
    rcases List.mem_cons.mp h with rfl | h
    · exact List.mem_cons_self
    · exact List.mem_cons_of_mem op (ih h)

section Rule

variable {C : ο → Prop} {ops : List ο} (hops : ∀ op ∈ ops, C op)

include hops

/-- The rule of a run whose requests satisfy `C`. -/
theorem events_rule {I : List (Event σ ο ρ) → σ → Prop}
    (hstep : ∀ past e, C e.op → I past e.before → e.Is step → I (past ++ [e]) e.after) :
    ∀ (before : List (Event σ ο ρ)) {s : σ}, I before s →
      ∀ past e rest, events step s ops = past ++ e :: rest →
        I (before ++ past) e.before ∧ C e.op ∧ e.Is step ∧ I (before ++ past ++ [e]) e.after :=
  fun before _ => events_when hstep before fun _ he => hops _ (op_mem_of_mem_events he)

/-- The rule for an invariant of the state alone. -/
theorem events_invariant {I : σ → Prop}
    (hstep : ∀ e : Event σ ο ρ, C e.op → I e.before → e.Is step → I e.after) {s : σ} (hs : I s) :
    ∀ e ∈ events step s ops, I e.before ∧ C e.op ∧ e.Is step ∧ I e.after := by
  intro e he
  obtain ⟨past, rest, h⟩ := List.append_of_mem he
  exact events_rule hops (I := fun _ s => I s) (fun _ => hstep) [] hs past e rest h

theorem events_chain {I : σ → Prop} {R : σ → σ → Prop} (htrans : ∀ a b c, R a b → R b c → R a c)
    (hstep : ∀ e : Event σ ο ρ, C e.op → I e.before → e.Is step → R e.before e.after ∧ I e.after)
    {s : σ} (hs : I s) : (s :: (events step s ops).map Event.after).Pairwise R :=
  events_chain_when (D := fun e => C e.op) htrans hstep
    (fun _ he => hops _ (op_mem_of_mem_events he)) hs

end Rule

/-- Any requests. -/
theorem anyRequest (ops : List ο) : ∀ op ∈ ops, (fun _ => True) op := fun _ _ => trivial

end Rules

/-! ## Methods that write and then raise -/

/-- A method on an object `σ`: an exception does not undo the writes made before it. -/
abbrev Proc (ε σ : Type) := ExceptT ε (StateM σ)

namespace Proc

/-- Run a method on `s`: what it returns or raises, and the object it leaves. -/
def exec (m : Proc ε σ α) (s : σ) : Except ε α × σ := (ExceptT.run m).run s

/-- What a method returns or raises and the object it leaves are in `T`. -/
def Ends (m : Proc ε σ α) (s : σ) (T : Except ε α → σ → Prop) : Prop := T (exec m s).1 (exec m s).2

variable {m : Proc ε σ α} {f : α → Proc ε σ β} {s s' : σ} {a : α}
  {T : Except ε α → σ → Prop} {U : Except ε β → σ → Prop}

variable {e : ε} {r : Except ε α} {handler : ε → Proc ε σ α}

theorem exec_bind_of_ok (h : exec m s = (.ok a, s')) : exec (m >>= f) s = exec (f a) s' := by
  unfold exec at h ⊢
  simp only [ExceptT.run_bind, StateT.run_bind]
  rw [h]
  rfl

theorem exec_bind_of_error (h : exec m s = (.error e, s')) :
    exec (m >>= f) s = (.error e, s') := by
  unfold exec at h ⊢
  simp only [ExceptT.run_bind, StateT.run_bind]
  rw [h]
  rfl

theorem exec_bind_get (f : σ → Proc ε σ β) (s : σ) : exec (get >>= f) s = exec (f s) s := rfl

theorem exec_bind_modify (g : σ → σ) (f : PUnit → Proc ε σ β) (s : σ) :
    exec (modify g >>= f) s = exec (f .unit) (g s) := rfl

theorem exec_bind_lift (h : r = .ok a) :
    exec (liftM r >>= f) s = exec (f a) s := by
  subst h
  rfl

theorem Ends.mono {T' : Except ε α → σ → Prop} (h : Ends m s T) (ht : ∀ r s', T r s' → T' r s') :
    Ends m s T' := ht _ _ h

theorem ends_of_exec (h : exec m s = (r, s')) (ht : T r s') : Ends m s T := by
  unfold Ends
  rw [h]
  exact ht

theorem ends_pure (h : T (.ok a) s) : Ends (pure a) s T := h

/-- A method that raised stops there, and one that returned goes on in the object it left. -/
theorem ends_bind (h : Ends m s fun r s' =>
    (∀ a, r = .ok a → Ends (f a) s' U) ∧ ∀ e, r = .error e → U (.error e) s') :
    Ends (m >>= f) s U := by
  unfold Ends at h
  rcases he : exec m s with ⟨e | a, s'⟩
  · rw [he] at h
    exact ends_of_exec (exec_bind_of_error he) (h.2 e rfl)
  · rw [he] at h
    unfold Ends
    rw [exec_bind_of_ok he]
    exact h.1 a rfl

theorem exec_map (g : α → β) (m : Proc ε σ α) (s : σ) :
    exec (g <$> m) s = ((exec m s).1.map g, (exec m s).2) := by
  rw [map_eq_pure_bind]
  rcases he : exec m s with ⟨e | a, s'⟩
  · exact exec_bind_of_error he
  · exact exec_bind_of_ok he

theorem ends_map {g : α → β} (h : Ends m s fun r t => U (r.map g) t) : Ends (g <$> m) s U :=
  ends_of_exec (exec_map g m s) h

theorem ends_bind_ok (h : exec m s = (.ok a, s')) (hf : Ends (f a) s' U) : Ends (m >>= f) s U := by
  unfold Ends
  rw [exec_bind_of_ok h]
  exact hf

theorem ends_bind_get {f : σ → Proc ε σ β} (h : Ends (f s) s U) : Ends (get >>= f) s U := h

theorem ends_bind_modify {g : σ → σ} {f : PUnit → Proc ε σ β} (h : Ends (f .unit) (g s) U) :
    Ends (modify g >>= f) s U := h

theorem ends_bind_set {t : σ} {f : PUnit → Proc ε σ β} (h : Ends (f .unit) t U) :
    Ends (set t >>= f) s U := h

theorem ends_bind_lift_ok (h : r = .ok a) (hf : Ends (f a) s U) :
    Ends (liftM r >>= f) s U := by
  subst h
  exact hf

theorem ends_bind_gives {P : ε → Prop} {Q : α → Prop} (h : Gives P Q r)
    (herror : ∀ e, P e → U (.error e) s) (hok : ∀ a, Q a → Ends (f a) s U) :
    Ends (liftM r >>= f) s U := by
  cases r with
  | error e => exact herror e h
  | ok a => exact hok a h

theorem ends_bind_lift (herror : ∀ e, r = .error e → U (.error e) s)
    (hok : ∀ a, r = .ok a → Ends (f a) s U) : Ends (liftM r >>= f) s U := by
  cases r with
  | error e => exact herror e rfl
  | ok a => exact hok a rfl

theorem ends_bind_raiseIf {c : Bool} {f : Unit → Proc ε σ β} (herror : c = true → U (.error e) s)
    (hok : c = false → Ends (f ()) s U) :
    Ends (liftM (raiseIf c e) >>= f) s U := by
  cases c with
  | true => exact herror rfl
  | false => exact hok rfl

/-- A method that leaves the object as it is. -/
def Reads (P : ε → Prop) (Q : α → Prop) (m : Proc ε σ α) (s : σ) : Prop :=
  Ends m s fun r t => t = s ∧ Gives P Q r

section Reads

variable {P : ε → Prop} {Q : α → Prop} {R : β → Prop}

theorem reads_lift (h : Gives P Q r) : Reads P Q (liftM r : Proc ε σ α) s :=
  ⟨rfl, h⟩

theorem reads_bind (hm : Reads P Q m s) (hf : ∀ a, Q a → Reads P R (f a) s) :
    Reads P R (m >>= f) s := by
  refine ends_bind (hm.mono ?_)
  rintro r t ⟨rfl, hr⟩
  constructor
  · rintro a rfl
    exact hf a hr
  · rintro e rfl
    exact ⟨rfl, hr⟩

theorem reads_mapM {Q : α → β → Prop} : ∀ {xs : List α}, (∀ x ∈ xs, Reads P (Q x) (f x) s) →
    Reads P (List.Forall₂ Q xs) (xs.mapM f) s
  | [], _ => ⟨rfl, .nil⟩
  | x :: xs, h => by
    rw [List.forall_mem_cons] at h
    rw [List.mapM_cons]
    refine reads_bind h.1 fun y hy => reads_bind (reads_mapM h.2) fun ys hys => ?_
    exact ⟨rfl, .cons hy hys⟩

end Reads

/-- **The rule for a loop whose turns do not raise**: `I` relates the object and the turns to come. -/
theorem ends_forM {f : α → Proc ε σ PUnit} {I : σ → List α → Prop}
    (hf : ∀ s x xs, I s (x :: xs) → Ends (f x) s fun r t => r = .ok .unit ∧ I t xs) :
    ∀ {xs : List α} {s : σ}, I s xs → Ends (xs.forM f) s fun r t => r = .ok .unit ∧ I t []
  | [], _, hs => ⟨rfl, hs⟩
  | x :: xs, s, hs => by
    have hcons : (x :: xs).forM f = f x >>= fun _ => xs.forM f := rfl
    rw [hcons]
    refine ends_bind ((hf s x xs hs).mono ?_)
    rintro r t ⟨rfl, ht⟩
    exact ⟨fun _ _ => ends_forM hf ht, fun e he => by cases he⟩

/-- **The rule for a loop whose turns may raise**: `J` holds of the object that the exception
leaves. -/
theorem ends_forM_raising {f : α → Proc ε σ PUnit} {I : σ → List α → Prop} {J : σ → Prop}
    (hf : ∀ s x xs, I s (x :: xs) → Ends (f x) s fun r t =>
      (∀ u, r = .ok u → I t xs) ∧ ∀ e, r = .error e → J t) :
    ∀ {xs : List α} {s : σ}, I s xs → Ends (xs.forM f) s fun r t =>
      (∀ u, r = .ok u → I t []) ∧ ∀ e, r = .error e → J t
  | [], _, hs => ⟨fun _ _ => hs, fun e he => by cases he⟩
  | x :: xs, s, hs => by
    have hcons : (x :: xs).forM f = f x >>= fun _ => xs.forM f := rfl
    rw [hcons]
    refine ends_bind ((hf s x xs hs).mono ?_)
    rintro r t ⟨hok, herror⟩
    refine ⟨fun u hu => ends_forM_raising hf (hok u hu), fun e he => ⟨fun u hu => ?_, fun _ _ => ?_⟩⟩
    · cases hu
    · exact herror e he

/-- The same for a loop that collects what its turns return; `Q` says what that is. -/
theorem ends_mapM_raising {I : σ → List α → Prop} {J : σ → Prop} {Q : α → β → Prop}
    (hf : ∀ s x xs, I s (x :: xs) → Ends (f x) s fun r t =>
      (∀ b, r = .ok b → Q x b ∧ I t xs) ∧ ∀ e, r = .error e → J t) :
    ∀ {xs : List α} {s : σ}, I s xs → Ends (xs.mapM f) s fun r t =>
      (∀ bs, r = .ok bs → List.Forall₂ Q xs bs ∧ I t []) ∧ ∀ e, r = .error e → J t
  | [], s, hs => by
    refine ends_pure ⟨?_, fun e he => by cases he⟩
    rintro bs hbs
    cases hbs
    exact ⟨.nil, hs⟩
  | x :: xs, s, hs => by
    rw [List.mapM_cons]
    refine ends_bind ((hf s x xs hs).mono ?_)
    rintro r t ⟨hok, herror⟩
    refine ⟨fun b hb => ends_bind ((ends_mapM_raising hf (hok b hb).2).mono ?_), fun e he =>
      ⟨fun _ h => (by cases h), fun _ _ => herror e he⟩⟩
    rintro r' u ⟨hok', herror'⟩
    refine ⟨fun bs hbs => ⟨fun cs hcs => ?_, fun e he => by cases he⟩, fun e he =>
      ⟨fun _ h => (by cases h), fun _ _ => herror' e he⟩⟩
    cases hcs
    exact ⟨.cons (hok b hb).1 (hok' bs hbs).1, (hok' bs hbs).2⟩

/-- A loop that only reads. -/
theorem exec_mapM {g : α → β} : ∀ {xs : List α}, (∀ x ∈ xs, exec (f x) s = (.ok (g x), s)) →
    exec (xs.mapM f) s = (.ok (xs.map g), s)
  | [], _ => rfl
  | x :: xs, h => by
    rw [List.forall_mem_cons] at h
    rw [List.mapM_cons, exec_bind_of_ok h.1, exec_bind_of_ok (exec_mapM h.2)]
    rfl

/-- A loop whose turns write and do not raise; `I` holds of the object before each turn. -/
theorem exec_forM {f : α → Proc ε σ PUnit} {g : σ → α → σ} {I : σ → List α → Prop}
    (hf : ∀ s x xs, I s (x :: xs) → exec (f x) s = (.ok .unit, g s x) ∧ I (g s x) xs) :
    ∀ {xs : List α} {s : σ}, I s xs → exec (xs.forM f) s = (.ok .unit, xs.foldl g s)
  | [], _, _ => rfl
  | x :: xs, s, hs => by
    obtain ⟨hx, hnext⟩ := hf s x xs hs
    have hcons : (x :: xs).forM f = f x >>= fun _ => xs.forM f := rfl
    rw [hcons, exec_bind_of_ok hx, exec_forM hf hnext]
    rfl

end Proc

/-! ## What a list of events holds in order -/

/-- Among the events there are some that satisfy the predicates, in this order. -/
def InOrder {α : Type} (Ps : List (α → Prop)) (l : List α) : Prop :=
  ∃ es, es.Sublist l ∧ List.Forall₂ (fun P e => P e) Ps es

section InOrder

variable {α : Type} {Ps : List (α → Prop)} {P : α → Prop} {l : List α} {e : α}

theorem inOrder_nil : InOrder [] l := ⟨[], List.nil_sublist l, .nil⟩

theorem InOrder.snoc (h : InOrder Ps l) (e : α) : InOrder Ps (l ++ [e]) := by
  obtain ⟨es, hes, hall⟩ := h
  exact ⟨es, hes.trans (List.sublist_append_left l [e]), hall⟩

theorem InOrder.extend (h : InOrder Ps l) (he : P e) : InOrder (Ps ++ [P]) (l ++ [e]) := by
  obtain ⟨es, hes, hall⟩ := h
  exact ⟨es ++ [e], hes.append (List.Sublist.refl [e]), List.rel_append hall (.cons he .nil)⟩

end InOrder

end LumaOS.Base
