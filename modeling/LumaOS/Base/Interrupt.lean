import LumaOS.Base.Fallible

/-!
# Code that can be cut off at any system call

A process acts on the world outside it only through system calls, and each of them may fail before
its effect, fail after it (a lost reply), or never return because the process is killed. `Calls σ τ`
is a method that owns a finite list of replies, one for each call it makes; it is killed when they
run out. So the world that code leaves under *some* list of replies is the world at *some* point of
its execution, and a statement for every list is a statement about every point.

`Ends m w Q E` is the contract of such code: started on `w`, whatever the replies, it returns a
value and leaves a world that satisfy `Q`, or it stops and leaves a world that satisfies `E`. One
rule for each way to continue (`ends_bind`, `ends_bind_lift`, `ends_call`); code that only looks at
the world has the shorter contract `Reads`. `Completes` says where the code gets when nothing fails.
-/

namespace LumaOS.Base

open Mut (exec)

/-- How a system call ends: done, done with its reply lost, or failed without an effect. `τ` is what
the world shows at that moment, such as a clock. -/
inductive Reply (τ : Type) where
  | done (seen : τ)
  | lost (seen : τ) (message : String)
  | failed (message : String)

/-- A world and the replies that a process on it will see. -/
structure Running (σ τ : Type) where
  world : σ
  replies : List (Reply τ)

/-- Code of a process on a world `σ`. -/
abbrev Calls (σ τ : Type) := Mut (Running σ τ)

variable {α β σ τ : Type}

/-- What a process that was killed left as its result; nobody sees the message. -/
def killed : String := "killed"

/-- One system call with the effect `f`. -/
def call (f : τ → Mut σ α) : Calls σ τ α :=
  ExceptT.mk fun s =>
    match s.replies with
    | [] => (.error (.refused killed), s)
    | .failed message :: rest => (.error (.refused message), { s with replies := rest })
    | .done seen :: rest => ((exec (f seen) s.world).1, ⟨(exec (f seen) s.world).2, rest⟩)
    | .lost seen message :: rest =>
      ((exec (f seen) s.world).1 >>= fun _ => refuse message, ⟨(exec (f seen) s.world).2, rest⟩)

/-- The world that `m` leaves. -/
def Calls.leaves (m : Calls σ τ α) (w : σ) (replies : List (Reply τ)) : σ :=
  (exec m ⟨w, replies⟩).2.world

/-- **The contract of code that can be cut off.** -/
def Ends (m : Calls σ τ α) (w : σ) (Q : α → σ → Prop) (E : σ → Prop) : Prop :=
  ∀ replies, match exec m ⟨w, replies⟩ with
    | (.ok a, s) => Q a s.world
    | (.error _, s) => E s.world

/-- Code that leaves the world alone, with what it may return. -/
def Reads (m : Calls σ τ α) (w : σ) (P : α → Prop) : Prop :=
  Ends m w (fun a w' => w' = w ∧ P a) fun w' => w' = w

variable {m : Calls σ τ α} {f : α → Calls σ τ β} {w : σ} {Q : α → σ → Prop} {R : β → σ → Prop}
  {E E' : σ → Prop} {P : α → Prop}

theorem Ends.of_ok (h : Ends m w Q E) {replies : List (Reply τ)} {a : α} {s : Running σ τ}
    (he : exec m ⟨w, replies⟩ = (.ok a, s)) : Q a s.world := by
  have := h replies
  rwa [he] at this

/-- Whichever way the code ends. -/
theorem Ends.leaves (h : Ends m w Q E) (hq : ∀ a w', Q a w' → E w') (replies : List (Reply τ)) :
    E (m.leaves w replies) := by
  have := h replies
  unfold Calls.leaves
  rcases he : exec m ⟨w, replies⟩ with ⟨e | a, s⟩
  · rwa [he] at this
  · rw [he] at this
    exact hq a s.world this

theorem Ends.mono {Q' : α → σ → Prop} (h : Ends m w Q E) (hq : ∀ a w', Q a w' → Q' a w')
    (he : ∀ w', E w' → E' w') : Ends m w Q' E' := by
  intro replies
  have := h replies
  split at this
  · exact hq _ _ this
  · exact he _ this

theorem ends_pure {a : α} (h : Q a w) : Ends (pure a : Calls σ τ α) w Q E := fun _ => h

theorem ends_lift {r : Result α} (hE : E w) (h : ∀ a, r = .ok a → Q a w) :
    Ends (liftM r : Calls σ τ α) w Q E := by
  intro replies
  rw [Mut.exec_lift]
  cases r with
  | error e => exact hE
  | ok a => exact h a rfl

theorem ends_bind (h : Ends m w Q E) (hf : ∀ a w', Q a w' → Ends (f a) w' R E) :
    Ends (m >>= f) w R E := by
  intro replies
  have := h replies
  rcases he : exec m ⟨w, replies⟩ with ⟨e | a, s⟩
  · rw [he] at this
    rw [Mut.exec_bind_of_error he]
    exact this
  · rw [he] at this
    rw [Mut.exec_bind_of_ok he]
    exact hf a s.world this s.replies

theorem ends_bind_lift {r : Result α} (hE : E w) (h : ∀ a, r = .ok a → Ends (f a) w R E) :
    Ends (liftM r >>= f) w R E :=
  ends_bind (Q := fun a w' => w' = w ∧ r = .ok a) (ends_lift hE fun _ ha => ⟨rfl, ha⟩)
    fun a _ ⟨hw, ha⟩ => hw ▸ h a ha

theorem exec_call_done {g : τ → Mut σ α} {seen : τ} {rest : List (Reply τ)} :
    exec (call g) ⟨w, .done seen :: rest⟩ =
      ((exec (g seen) w).1, ⟨(exec (g seen) w).2, rest⟩) := rfl

theorem exec_call_lost {g : τ → Mut σ α} {seen : τ} {message : String} {rest : List (Reply τ)} :
    exec (call g) ⟨w, .lost seen message :: rest⟩ =
      ((exec (g seen) w).1 >>= fun _ => refuse message, ⟨(exec (g seen) w).2, rest⟩) := rfl

/-- A system call is atomic: it may not happen, and when it does its reply may be lost. -/
theorem ends_call {g : τ → Mut σ α} (hE : E w)
    (h : ∀ seen, Mut.Spec (g seen) w fun a w' => Q a w' ∧ E w') : Ends (call g) w Q E := by
  intro replies
  rcases replies with _ | ⟨seen | ⟨seen, message⟩ | message, rest⟩
  · exact hE
  · rw [exec_call_done]
    rcases he : exec (g seen) w with ⟨e | a, w'⟩
    · rw [(h seen).of_error he]
      exact hE
    · exact ((h seen).of_ok he).1
  · rw [exec_call_lost]
    rcases he : exec (g seen) w with ⟨e | a, w'⟩
    · rw [(h seen).of_error he]
      exact hE
    · exact ((h seen).of_ok he).2
  · exact hE

/-- A system call that only writes. -/
theorem ends_modify {g : σ → σ} (hE : E w) (hE' : E (g w)) :
    Ends (call fun _ : τ => modify g) w (fun _ w' => w' = g w) E :=
  ends_call hE fun _ => ⟨rfl, hE'⟩

/-! ## Reading -/

theorem reads_call {g : τ → Mut σ α} (h : ∀ seen, Mut.Spec (g seen) w fun a w' => w' = w ∧ P a) :
    Reads (call g) w P :=
  ends_call rfl fun seen => (h seen).mono fun _ _ ha => ⟨ha, ha.1⟩

theorem reads_pure {a : α} (h : P a) : Reads (pure a : Calls σ τ α) w P := ends_pure ⟨rfl, h⟩

theorem Reads.ends_bind (h : Reads m w P) (hE : E w) (hf : ∀ a, P a → Ends (f a) w R E) :
    Ends (m >>= f) w R E :=
  Base.ends_bind (Q := fun a w' => w' = w ∧ P a)
    (Ends.mono h (fun _ _ ha => ha) fun _ he => he ▸ hE) fun a _ ⟨hw, ha⟩ => hw ▸ hf a ha

theorem Reads.bind {P' : β → Prop} (h : Reads m w P) (hf : ∀ a, P a → Reads (f a) w P') :
    Reads (m >>= f) w P' :=
  Reads.ends_bind h rfl hf

theorem reads_bind_lift {r : Result α} {P' : β → Prop}
    (h : ∀ a, r = .ok a → Reads (f a) w P') : Reads (liftM r >>= f) w P' :=
  ends_bind_lift rfl h

/-! ## Code that gets through -/

/-- The call was done, and what it showed is in `G`. -/
def Reply.Grants (G : τ → Prop) : Reply τ → Prop
  | .done seen => G seen
  | _ => False

/-- **Where nothing fails**: given enough replies that all grant, `m` returns `a` and leaves `w'`. -/
def Completes (G : τ → Prop) (m : Calls σ τ α) (w : σ) (a : α) (w' : σ) : Prop :=
  ∃ n, ∀ replies : List (Reply τ), n ≤ replies.length → (∀ r ∈ replies, r.Grants G) →
    exec m ⟨w, replies⟩ = (.ok a, ⟨w', replies.drop n⟩)

section Completes

variable {G : τ → Prop} {a : α} {b : β} {w' w'' : σ}

theorem completes_pure : Completes G (pure a : Calls σ τ α) w a w := ⟨0, fun _ _ _ => rfl⟩

theorem completes_lift {r : Result α} (h : r = .ok a) :
    Completes G (liftM r : Calls σ τ α) w a w :=
  ⟨0, fun _ _ _ => by rw [Mut.exec_lift, h, List.drop_zero]⟩

theorem completes_bind (hm : Completes G m w a w') (hf : Completes G (f a) w' b w'') :
    Completes G (m >>= f) w b w'' := by
  obtain ⟨n, hn⟩ := hm
  obtain ⟨k, hk⟩ := hf
  refine ⟨n + k, fun replies hlength hgrants => ?_⟩
  rw [Mut.exec_bind_of_ok (hn replies (by omega) hgrants), hk _ (by rw [List.length_drop]; omega)
    fun r hr => hgrants r (List.mem_of_mem_drop hr), List.drop_drop]

theorem completes_bind_lift {r : Result α} (h : r = .ok a) (hf : Completes G (f a) w b w'') :
    Completes G (liftM r >>= f) w b w'' :=
  completes_bind (completes_lift h) hf

theorem completes_bind_refuseIf {c : Bool} {message : String} {f : Unit → Calls σ τ β}
    (h : c = false) (hf : Completes G (f ()) w b w'') :
    Completes G (liftM (refuseIf c message) >>= f) w b w'' :=
  completes_bind_lift (refuseIf_eq_ok.mpr h) hf

theorem completes_call {g : τ → Mut σ α} (h : ∀ seen, G seen → exec (g seen) w = (.ok a, w')) :
    Completes G (call g) w a w' := by
  refine ⟨1, fun replies hlength hgrants => ?_⟩
  rcases replies with _ | ⟨seen | _ | _, rest⟩
  · exact absurd hlength (by simp)
  · rw [exec_call_done, h seen (hgrants _ List.mem_cons_self)]
    rfl
  · exact (hgrants _ List.mem_cons_self).elim
  · exact (hgrants _ List.mem_cons_self).elim

end Completes

/-- Code that gets from `w` to `w'` where nothing fails, and leaves a world that satisfies `E` where
it is cut off. -/
structure Performs (G : τ → Prop) (m : Calls σ τ α) (w : σ) (a : α) (w' : σ) (E : σ → Prop) :
    Prop where
  ends : Ends m w (fun b v => b = a ∧ v = w') E
  completes : Completes G m w a w'

section Performs

variable {G : τ → Prop} {a : α} {b : β} {w' w'' : σ}

theorem performs_pure : Performs G (pure a : Calls σ τ α) w a w E :=
  ⟨fun _ => ⟨rfl, rfl⟩, completes_pure⟩

theorem performs_bind (hm : Performs G m w a w' E) (hf : Performs G (f a) w' b w'' E) :
    Performs G (m >>= f) w b w'' E := by
  refine ⟨ends_bind hm.ends ?_, completes_bind hm.completes hf.completes⟩
  rintro _ _ ⟨rfl, rfl⟩
  exact hf.ends

/-- What follows code that performs starts from where it gets. -/
theorem Performs.ends_bind (h : Performs G m w a w' E) (hf : Ends (f a) w' R E) :
    Ends (m >>= f) w R E := by
  refine Base.ends_bind h.ends ?_
  rintro _ _ ⟨rfl, rfl⟩
  exact hf

theorem performs_call {g : τ → Mut σ α} (hE : E w) (hE' : E w')
    (h : ∀ seen, exec (g seen) w = (.ok a, w')) : Performs G (call g) w a w' E :=
  ⟨ends_call hE fun seen => Mut.spec_of_exec (h seen) ⟨⟨rfl, rfl⟩, hE'⟩,
    completes_call fun seen _ => h seen⟩

/-- **The rule for a loop that performs**: `I` relates the turns to come and the world. -/
theorem performs_forM {f : α → Calls σ τ PUnit} {I : List α → σ → Prop}
    (hf : ∀ w x xs, I (x :: xs) w → ∃ w', Performs G (f x) w .unit w' E ∧ I xs w') :
    ∀ {xs : List α} {w : σ}, I xs w → ∃ w', Performs G (xs.forM f) w .unit w' E ∧ I [] w'
  | [], w, hw => ⟨w, performs_pure, hw⟩
  | x :: xs, w, hw => by
    obtain ⟨w₁, hx, hw₁⟩ := hf w x xs hw
    obtain ⟨w₂, hxs, hw₂⟩ := performs_forM hf hw₁
    exact ⟨w₂, performs_bind hx hxs, hw₂⟩

end Performs

end LumaOS.Base
