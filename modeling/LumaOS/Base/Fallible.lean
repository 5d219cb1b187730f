import Mathlib.Algebra.Group.Int.Defs
import Mathlib.Algebra.Group.Nat.Defs
import Mathlib.Logic.Basic
import Mathlib.Tactic.Common

/-!
# Calls that refuse, panic, or write before they fail

A Rust function returning `Result<T>` either returns a value, returns `Err` with a message, or
panics; `Result` keeps the three apart. A `&mut self` method also leaves some `self` behind
whichever way it ends, so it is `Mut σ α`: the standard stack `ExceptT Stop (StateM σ)`, in which
an error does **not** undo the writes made before it.

* `refuseIf`, `okOr`, `expect` are `if c { return Err(..) }`, `.ok_or(..)?` and the panicking
  index. Every loop-free body is a chain of binds of these, so one inversion lemma per shape
  (`bind_eq_ok`, `refuseIf_eq_ok`, `okOr_eq_ok`) reads a success back as the list of guards it
  passed.
* `Mut.exec m s` runs a method on `s`. `Mut.Spec m s Q` is the contract of an atomic method: a
  failure leaves `s`, a success satisfies `Q`. Reads keep it (`spec_bind_lift`, `spec_bind_get`),
  and so does a tail that cannot fail (`spec_of_exec`). A fallible step after the first write has
  no rule here; it has to be shown not to fail.
-/

namespace LumaOS.Base

/-- Why a call returned no value: `Err` with its message, or a panic. -/
inductive Stop where
  | refused (message : String)
  | panicked (message : String)
deriving DecidableEq, Repr

instance decidableEqExcept {ε α : Type} [DecidableEq ε] [DecidableEq α] :
    DecidableEq (Except ε α)
  | .ok a, .ok b => decidable_of_iff (a = b) ⟨congrArg _, Except.ok.inj⟩
  | .error a, .error b => decidable_of_iff (a = b) ⟨congrArg _, Except.error.inj⟩
  | .ok _, .error _ => .isFalse (by simp)
  | .error _, .ok _ => .isFalse (by simp)

/-- `Result<T>`, with a panic as a third outcome. -/
abbrev Result (α : Type) := Except Stop α

variable {α β σ : Type}

/-- `return Err(message.into())`. -/
def refuse (message : String) : Result α := .error (.refused message)

/-- `if condition { return Err(message.into()) }`. -/
def refuseIf (condition : Bool) (message : String) : Result Unit :=
  if condition then refuse message else .ok ()

/-- `option.ok_or(message)?`. -/
def okOr : Option α → String → Result α
  | some a, _ => .ok a
  | none, message => refuse message

/-- `foreign(..)?`, for an error whose text comes from outside the repository. -/
def ofForeign : Except String α → Result α
  | .ok a => .ok a
  | .error message => refuse message

/-- `map[key]` and the overflow-checked `+`: a panic where the option is empty. -/
def expect : Option α → String → Result α
  | some a, _ => .ok a
  | none, message => .error (.panicked message)

/-! ## Reading a success back -/

theorem bind_eq_ok {ε : Type} {x : Except ε α} {f : α → Except ε β} {b : β} :
    x >>= f = .ok b ↔ ∃ a, x = .ok a ∧ f a = .ok b := by
  cases x with
  | error e | ok a => simp [bind, Except.bind]

theorem pure_eq_ok {ε : Type} {a b : α} : (pure a : Except ε α) = .ok b ↔ a = b := by
  simp [pure, Except.pure]

theorem refuseIf_eq_ok {c : Bool} {m : String} {u : Unit} : refuseIf c m = .ok u ↔ c = false := by
  cases c <;> simp [refuseIf, refuse]

theorem okOr_eq_ok {o : Option α} {m : String} {a : α} : okOr o m = .ok a ↔ o = some a := by
  cases o <;> simp [okOr, refuse]

theorem ofForeign_eq_ok {e : Except String α} {a : α} : ofForeign e = .ok a ↔ e = .ok a := by
  cases e <;> simp [ofForeign, refuse]

theorem expect_eq_ok {o : Option α} {m : String} {a : α} : expect o m = .ok a ↔ o = some a := by
  cases o <;> simp [expect]

@[simp] theorem refuse_ne_ok {m : String} {a : α} : refuse m ≠ .ok a := nofun

/-! ## Panics -/

/-- The call returns or refuses; it does not panic. The instances below follow the shape of a
body, so most validators have it by instance search. -/
class NoPanic (r : Result α) : Prop where
  out : ∀ m, r ≠ .error (.panicked m)

instance noPanic_ok (a : α) : NoPanic (.ok a : Result α) := ⟨fun _ h => nomatch h⟩

instance noPanic_pure (a : α) : NoPanic (pure a : Result α) := noPanic_ok a

instance noPanic_refuse (m : String) : NoPanic (refuse m : Result α) :=
  ⟨fun _ => by simp [refuse]⟩

instance noPanic_refuseIf (c : Bool) (m : String) : NoPanic (refuseIf c m) := by
  unfold refuseIf
  split
  · exact noPanic_refuse m
  · exact noPanic_ok ()

instance noPanic_okOr (o : Option α) (m : String) : NoPanic (okOr o m) := by
  cases o with
  | none => exact noPanic_refuse m
  | some a => exact noPanic_ok a

instance noPanic_ofForeign (e : Except String α) : NoPanic (ofForeign e) := by
  cases e with
  | error m => exact noPanic_refuse m
  | ok a => exact noPanic_ok a

theorem noPanic_expect {o : Option α} {a : α} (h : o = some a) (m : String) :
    NoPanic (expect o m) := by
  rw [h]
  exact noPanic_ok a

theorem noPanic_bind {x : Result α} {f : α → Result β} (hx : NoPanic x)
    (hf : ∀ a, x = .ok a → NoPanic (f a)) : NoPanic (x >>= f) := by
  cases x with
  | error e => exact ⟨fun m h => hx.out m (by simpa [bind, Except.bind] using h)⟩
  | ok a => exact hf a rfl

instance noPanic_binds {x : Result α} {f : α → Result β} [hx : NoPanic x]
    [hf : ∀ a, NoPanic (f a)] : NoPanic (x >>= f) :=
  noPanic_bind hx fun a _ => hf a

instance noPanic_ite {c : Prop} [Decidable c] {x y : Result α} [NoPanic x] [NoPanic y] :
    NoPanic (if c then x else y) := by
  split
  · assumption
  · assumption

/-! ## Methods on `&mut self` -/

/-- A `&mut self` method: errors keep the writes made before them. -/
abbrev Mut (σ : Type) := ExceptT Stop (StateM σ)

namespace Mut

/-- Run a method on `s`: its result and the `self` it leaves. -/
def exec (m : Mut σ α) (s : σ) : Result α × σ := (ExceptT.run m).run s

theorem exec_pure (a : α) (s : σ) : exec (pure a) s = (.ok a, s) := rfl

theorem exec_get (s : σ) : exec (get : Mut σ σ) s = (.ok s, s) := rfl

theorem exec_modify (f : σ → σ) (s : σ) : exec (modify f : Mut σ PUnit) s = (.ok .unit, f s) := rfl

theorem exec_set (t s : σ) : exec (set t : Mut σ PUnit) s = (.ok .unit, t) := rfl

theorem exec_lift (r : Result α) (s : σ) : exec (liftM r : Mut σ α) s = (r, s) := rfl

theorem exec_bind_of_ok {m : Mut σ α} {f : α → Mut σ β} {s s' : σ} {a : α}
    (h : exec m s = (.ok a, s')) : exec (m >>= f) s = exec (f a) s' := by
  unfold exec at h ⊢
  simp only [ExceptT.run_bind, StateT.run_bind]
  rw [h]
  rfl

theorem exec_bind_of_error {m : Mut σ α} {f : α → Mut σ β} {s s' : σ} {e : Stop}
    (h : exec m s = (.error e, s')) : exec (m >>= f) s = (.error e, s') := by
  unfold exec at h ⊢
  simp only [ExceptT.run_bind, StateT.run_bind]
  rw [h]
  rfl

theorem exec_bind_get (f : σ → Mut σ β) (s : σ) : exec (get >>= f) s = exec (f s) s :=
  exec_bind_of_ok (exec_get s)

theorem exec_bind_modify (g : σ → σ) (f : PUnit → Mut σ β) (s : σ) :
    exec (modify g >>= f) s = exec (f .unit) (g s) := exec_bind_of_ok (exec_modify g s)

theorem exec_bind_set (t : σ) (f : PUnit → Mut σ β) (s : σ) :
    exec (set t >>= f) s = exec (f .unit) t := exec_bind_of_ok (exec_set t s)

/-- A bind succeeds when both halves do. -/
theorem exec_bind_eq_ok {m : Mut σ α} {f : α → Mut σ β} {s s'' : σ} {b : β} :
    exec (m >>= f) s = (.ok b, s'') ↔
      ∃ a s', exec m s = (.ok a, s') ∧ exec (f a) s' = (.ok b, s'') := by
  rcases hm : exec m s with ⟨e | a, s'⟩
  · rw [exec_bind_of_error hm]
    simp
  · rw [exec_bind_of_ok hm]
    constructor
    · exact fun h => ⟨a, s', rfl, h⟩
    · rintro ⟨a', t, h, hf⟩
      cases h
      exact hf

/-- A success behind a read-only check: the check passed, on the same `self`. -/
theorem exec_bind_lift_eq_ok {r : Result α} {f : α → Mut σ β} {s s' : σ} {b : β} :
    exec (liftM r >>= f) s = (.ok b, s') ↔ ∃ a, r = .ok a ∧ exec (f a) s = (.ok b, s') := by
  rw [exec_bind_eq_ok]
  simp only [exec_lift, Prod.mk.injEq]
  constructor
  · rintro ⟨a, _, ⟨hr, rfl⟩, hf⟩
    exact ⟨a, hr, hf⟩
  · rintro ⟨a, hr, hf⟩
    exact ⟨a, s, ⟨hr, rfl⟩, hf⟩

/-- A read-only prefix passes its outcome on. -/
theorem exec_bind_lift {r : Result α} {f : α → Mut σ β} {g : α → Result β} {s : σ}
    (h : ∀ a, r = .ok a → exec (f a) s = (g a, s)) : exec (liftM r >>= f) s = (r >>= g, s) := by
  cases r with
  | error e => rw [exec_bind_of_error (exec_lift _ s)]; rfl
  | ok a => rw [exec_bind_of_ok (exec_lift _ s), h a rfl]; rfl

/-- **The contract of an atomic method**: run on `s`, it either fails and leaves `s`, or returns
a value and leaves a `self` that satisfy `Q`. -/
def Spec (m : Mut σ α) (s : σ) (Q : α → σ → Prop) : Prop :=
  match exec m s with
  | (.ok a, s') => Q a s'
  | (.error _, s') => s' = s

section Spec

variable {m : Mut σ α} {s s' : σ} {Q Q' : α → σ → Prop} {R : β → σ → Prop}

variable {a : α} {r : Result α} {f : α → Mut σ β}

theorem Spec.of_ok (h : Spec m s Q) (he : exec m s = (.ok a, s')) : Q a s' := by
  unfold Spec at h
  rw [he] at h
  exact h

theorem Spec.of_error (h : Spec m s Q) {e : Stop} (he : exec m s = (.error e, s')) : s' = s := by
  unfold Spec at h
  rw [he] at h
  exact h

theorem Spec.mono (h : Spec m s Q) (hq : ∀ a s', Q a s' → Q' a s') : Spec m s Q' := by
  unfold Spec at *
  split at h
  · exact hq _ _ h
  · exact h

/-- A tail that cannot fail meets the contract whatever it wrote. -/
theorem spec_of_exec (he : exec m s = (.ok a, s')) (hq : Q a s') : Spec m s Q := by
  unfold Spec
  rw [he]
  exact hq

theorem spec_pure (h : Q a s) : Spec (pure a) s Q := h

theorem spec_set {t : σ} {Q : PUnit → σ → Prop} (h : Q .unit t) : Spec (set t) s Q := h

theorem spec_modify {f : σ → σ} {Q : PUnit → σ → Prop} (h : Q .unit (f s)) :
    Spec (modify f) s Q := h

theorem spec_lift (h : ∀ a, r = .ok a → Q a s) : Spec (liftM r : Mut σ α) s Q := by
  unfold Spec
  rw [exec_lift]
  cases r with
  | error e => rfl
  | ok a => exact h a rfl

theorem spec_bind_get {f : σ → Mut σ β} (h : Spec (f s) s R) : Spec (get >>= f) s R := by
  unfold Spec at *
  rwa [exec_bind_get]

theorem spec_bind_lift (h : ∀ a, r = .ok a → Spec (f a) s R) :
    Spec (liftM r >>= f) s R := by
  cases r with
  | error e =>
    unfold Spec
    rw [exec_bind_of_error (exec_lift _ s)]
  | ok a =>
    have := h a rfl
    unfold Spec at *
    rwa [exec_bind_of_ok (exec_lift _ s)]

/-- Returning a function of an atomic call's value is atomic. -/
theorem spec_bind_pure {g : α → β} (h : Spec m s fun a s' => R (g a) s') :
    Spec (m >>= fun a => pure (g a)) s R := by
  unfold Spec at *
  rcases he : exec m s with ⟨e | a, s'⟩
  · rw [he] at h
    rw [exec_bind_of_error he]
    exact h
  · rw [he] at h
    rw [exec_bind_of_ok he, exec_pure]
    exact h

/-- Run a method on a part of `self`: what it leaves of the part is written back, whichever way
it ends. -/
def focus {τ : Type} (part : σ → τ) (put : τ → σ → σ) (m : Mut τ α) : Mut σ α :=
  ExceptT.mk fun s => let (r, t) := (ExceptT.run m).run (part s); (r, put t s)

theorem exec_focus {τ : Type} (part : σ → τ) (put : τ → σ → σ) (m : Mut τ α) (s : σ) :
    exec (focus part put m) s = ((exec m (part s)).1, put (exec m (part s)).2 s) := rfl

/-! ### Methods that write and then fail -/

/-- The contract of any method: its result and the `self` it leaves are in `T`. -/
def Yields (m : Mut σ α) (s : σ) (T : Result α → σ → Prop) : Prop := T (exec m s).1 (exec m s).2

variable {T : Result α → σ → Prop} {U : Result β → σ → Prop}

theorem Yields.mono {T' : Result α → σ → Prop} (h : Yields m s T)
    (ht : ∀ r s', T r s' → T' r s') : Yields m s T' := ht _ _ h

/-- What a method yields, and how it came to it. -/
theorem Yields.traced (h : Yields m s T) : Yields m s fun r s' => exec m s = (r, s') ∧ T r s' :=
  ⟨rfl, h⟩

theorem yields_pure (h : T (.ok a) s) : Yields (pure a) s T := h

theorem yields_lift (h : T r s) : Yields (liftM r : Mut σ α) s T := h

theorem yields_set {t : σ} {T : Result PUnit → σ → Prop} (h : T (.ok .unit) t) :
    Yields (set t) s T := h

/-- A method that failed stops there, and one that returned goes on in the `self` it left. -/
theorem yields_bind
    (h : Yields m s fun r s' => match r with
      | .ok a => Yields (f a) s' U
      | .error e => U (.error e) s') : Yields (m >>= f) s U := by
  unfold Yields at h ⊢
  rcases he : exec m s with ⟨e | a, s'⟩
  · rw [he] at h
    rw [exec_bind_of_error he]
    exact h
  · rw [he] at h
    rw [exec_bind_of_ok he]
    exact h

theorem yields_bind_get {f : σ → Mut σ β} (h : Yields (f s) s U) : Yields (get >>= f) s U :=
  yields_bind h

theorem yields_bind_set {t : σ} {f : PUnit → Mut σ β} (h : Yields (f .unit) t U) :
    Yields (set t >>= f) s U :=
  yields_bind h

theorem yields_bind_lift (herr : ∀ e, r = .error e → U (.error e) s)
    (hok : ∀ a, r = .ok a → Yields (f a) s U) : Yields (liftM r >>= f) s U := by
  refine yields_bind ?_
  cases r with
  | error e => exact herr e rfl
  | ok a => exact hok a rfl

/-- `if result.is_err() { f(self) } result`: a failure also makes a note in `self`. -/
def onError (f : σ → σ) (m : Mut σ α) : Mut σ α := ExceptT.mk fun s =>
  match exec m s with
  | (.ok a, s') => (.ok a, s')
  | (.error e, s') => (.error e, f s')

theorem exec_onError_eq_ok {f : σ → σ} :
    exec (onError f m) s = (.ok a, s') ↔ exec m s = (.ok a, s') := by
  have hexec : exec (onError f m) s = match exec m s with
    | (.ok a, s') => (.ok a, s')
    | (.error e, s') => (.error e, f s') := rfl
  rw [hexec]
  rcases exec m s with ⟨e | a, t⟩
  · simp
  · rfl

theorem yields_onError {f : σ → σ} (hok : ∀ a s', exec m s = (.ok a, s') → T (.ok a) s')
    (herror : ∀ e s', exec m s = (.error e, s') → T (.error e) (f s')) :
    Yields (onError f m) s T := by
  have hexec : exec (onError f m) s = match exec m s with
    | (.ok a, s') => (.ok a, s')
    | (.error e, s') => (.error e, f s') := rfl
  unfold Yields
  rw [hexec]
  rcases hm : exec m s with ⟨e | a, s'⟩
  · exact herror e s' hm
  · exact hok a s' hm

/-! ### What a method leaves, whichever way it ends -/

/-- Whatever a method returns, the `self` it leaves is related to the one it found. -/
def Keeps (R : σ → σ → Prop) (m : Mut σ α) : Prop := ∀ s, R s (exec m s).2

section Keeps

variable {K : σ → σ → Prop}

theorem Keeps.yields (h : Keeps K m) : Yields m s fun _ s' => K s s' := h s

theorem keeps_lift [Std.Refl K] (r : Result α) : Keeps K (liftM r : Mut σ α) :=
  fun s => Std.Refl.refl s

theorem keeps_pure [Std.Refl K] (a : α) : Keeps K (pure a : Mut σ α) := fun s => Std.Refl.refl s

theorem keeps_modify {f : σ → σ} (h : ∀ s, K s (f s)) : Keeps K (modify f : Mut σ PUnit) := h

theorem keeps_bind [Trans K K K] (hm : Keeps K m) (hf : ∀ a, Keeps K (f a)) :
    Keeps K (m >>= f) := by
  intro s
  have hs := hm s
  rcases he : exec m s with ⟨e | a, s'⟩
  · rw [he] at hs
    rw [exec_bind_of_error he]
    exact hs
  · rw [he] at hs
    rw [exec_bind_of_ok he]
    exact Trans.trans hs (hf a s')

theorem keeps_bind_get {f : σ → Mut σ β} (h : ∀ s, K s (exec (f s) s).2) :
    Keeps K (get >>= f) := by
  intro s
  rw [exec_bind_get]
  exact h s

theorem keeps_onError [Trans K K K] {f : σ → σ} (hm : Keeps K m) (hf : ∀ s, K s (f s)) :
    Keeps K (onError f m) := by
  intro s
  have hs := hm s
  refine yields_onError (T := fun _ s' => K s s') (fun a s' he => ?_) fun e s' he => ?_
  · rw [he] at hs
    exact hs
  · rw [he] at hs
    exact Trans.trans hs (hf s')

end Keeps

/-! ### Without panics -/

/-- An atomic method that does not panic either. -/
structure Safe (m : Mut σ α) (s : σ) (Q : α → σ → Prop) : Prop where
  spec : Spec m s Q
  noPanic : NoPanic (exec m s).1

theorem Safe.mono (h : Safe m s Q) (hq : ∀ a s', Q a s' → Q' a s') : Safe m s Q' :=
  ⟨h.spec.mono hq, h.noPanic⟩

theorem safe_of_exec (he : exec m s = (.ok a, s')) (hq : Q a s') : Safe m s Q :=
  ⟨spec_of_exec he hq, by rw [he]; exact noPanic_ok a⟩

theorem safe_pure (h : Q a s) : Safe (pure a) s Q := ⟨h, noPanic_ok a⟩

theorem safe_set {t : σ} {Q : PUnit → σ → Prop} (h : Q .unit t) : Safe (set t) s Q :=
  ⟨h, noPanic_ok _⟩

theorem safe_lift [NoPanic r] (h : ∀ a, r = .ok a → Q a s) :
    Safe (liftM r : Mut σ α) s Q :=
  ⟨spec_lift h, inferInstanceAs (NoPanic r)⟩

theorem safe_bind_get {f : σ → Mut σ β} (h : Safe (f s) s R) : Safe (get >>= f) s R :=
  ⟨spec_bind_get h.spec, by rw [exec_bind_get]; exact h.noPanic⟩

theorem safe_bind_lift [hr : NoPanic r] (h : ∀ a, r = .ok a → Safe (f a) s R) :
    Safe (liftM r >>= f) s R := by
  refine ⟨spec_bind_lift fun a ha => (h a ha).spec, ?_⟩
  cases r with
  | error e =>
    rw [exec_bind_of_error (exec_lift _ s)]
    exact ⟨fun m hm => hr.out m (by simpa using hm)⟩
  | ok a =>
    rw [exec_bind_of_ok (exec_lift _ s)]
    exact (h a rfl).noPanic

theorem safe_modify {f : σ → σ} {Q : PUnit → σ → Prop} (h : Q .unit (f s)) :
    Safe (modify f) s Q :=
  ⟨spec_modify h, noPanic_ok _⟩

/-- `safe_bind_lift`, for a check whose panics are excluded by what stands before it. -/
theorem safe_bind_check (hr : NoPanic r) (h : ∀ a, r = .ok a → Safe (f a) s R) :
    Safe (liftM r >>= f) s R :=
  safe_bind_lift h

/-- Returning a function of a safe call's value is safe. -/
theorem safe_bind_pure {g : α → β} (h : Safe m s fun a s' => R (g a) s') :
    Safe (m >>= fun a => pure (g a)) s R := by
  refine ⟨spec_bind_pure h.spec, ⟨fun text he => ?_⟩⟩
  rcases hm : exec m s with ⟨e | a, s'⟩
  · rw [exec_bind_of_error hm] at he
    exact h.noPanic.out text (by rw [hm]; simpa using he)
  · rw [exec_bind_of_ok hm, exec_pure] at he
    cases he

/-- A method on a part keeps its contract on the whole, when writing the part back unchanged
changes nothing. -/
theorem safe_focus {τ : Type} {part : σ → τ} {put : τ → σ → σ} {m : Mut τ α}
    {T : α → τ → Prop} (h : Safe m (part s) T) (hput : put (part s) s = s)
    (hq : ∀ a t, T a t → Q a (put t s)) : Safe (focus part put m) s Q := by
  refine ⟨?_, by rw [exec_focus]; exact h.noPanic⟩
  have hspec := h.spec
  unfold Spec at hspec ⊢
  rw [exec_focus]
  rcases he : exec m (part s) with ⟨e | a, t⟩
  · rw [he] at hspec
    exact hspec ▸ hput
  · rw [he] at hspec
    exact hq a t hspec

/-- Two atomic halves in sequence, of which the second cannot fail. -/
theorem safe_bind (h : Safe m s Q)
    (hf : ∀ a s', Q a s' → ∃ b s'', exec (f a) s' = (.ok b, s'') ∧ R b s'') :
    Safe (m >>= f) s R := by
  have hspec := h.spec
  have hpanic := h.noPanic
  rcases he : exec m s with ⟨e | a, s'⟩
  · rw [he] at hpanic
    constructor
    · unfold Spec
      rw [exec_bind_of_error he]
      exact hspec.of_error he
    · rw [exec_bind_of_error he]
      exact ⟨fun msg hm => hpanic.out msg (by simpa using hm)⟩
  · obtain ⟨b, s'', hb, hr⟩ := hf a s' (hspec.of_ok he)
    exact safe_of_exec ((exec_bind_of_ok he).trans hb) hr

end Spec

end Mut

end LumaOS.Base
