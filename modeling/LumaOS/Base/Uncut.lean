import LumaOS.Base.Interrupt

/-!
# Code under given replies

`Ends` speaks of every list of replies at once. Where a cut in one place matters, the replies have
to be looked at: `EndsOn m w replies Q E` is the contract under one list, and its `Q` also sees the
replies that are left. Code that makes no call has an outcome that no reply decides (`Shows`), and
`Succeeds n m w Q` says what up to `n` calls do when all of them are done.
-/

namespace LumaOS.Base

open Mut (exec)

variable {α β σ τ : Type} {m : Calls σ τ α} {f : α → Calls σ τ β} {w w' : σ}
  {replies : List (Reply τ)}

/-! ## Code that makes no call -/

/-- Code that makes no call: it returns `r` and leaves the world alone. -/
def Shows (m : Calls σ τ α) (w : σ) (r : Result α) : Prop :=
  ∀ replies : List (Reply τ), exec m ⟨w, replies⟩ = (r, ⟨w, replies⟩)

theorem shows_lift (r : Result α) : Shows (liftM r : Calls σ τ α) w r :=
  fun _ => rfl

theorem shows_pure (a : α) : Shows (pure a : Calls σ τ α) w (.ok a) := fun _ => rfl

theorem shows_bind {r : Result β} {a : α} (h : Shows m w (.ok a)) (hf : Shows (f a) w r) :
    Shows (m >>= f) w r := fun replies => by
  rw [Mut.exec_bind_of_ok (h replies), hf replies]

theorem shows_bind_lift {r : Result α} {s : Result β} {a : α} (h : r = .ok a)
    (hf : Shows (f a) w s) : Shows (liftM r >>= f) w s :=
  shows_bind (h ▸ shows_lift r) hf

theorem shows_bind_refuseIf {c : Bool} {message : String} {f : Unit → Calls σ τ β} {s : Result β}
    (h : c = false) (hf : Shows (f ()) w s) : Shows (liftM (refuseIf c message) >>= f) w s :=
  shows_bind_lift (refuseIf_eq_ok.mpr h) hf

/-- What follows code that makes no call leaves what it leaves. -/
theorem Shows.leaves_bind {a : α} (h : Shows m w (.ok a)) :
    (m >>= f).leaves w replies = (f a).leaves w replies := by
  unfold Calls.leaves
  rw [Mut.exec_bind_of_ok (h replies)]

theorem leaves_bind_lift {r : Result α} {f : α → Calls σ τ β} {a : α} (h : r = .ok a) :
    (liftM r >>= f).leaves w replies = (f a).leaves w replies :=
  Shows.leaves_bind (h ▸ shows_lift r)

/-- Code that makes no call, whatever it returns. -/
def Quiet (m : Calls σ τ α) (w : σ) (P : α → Prop) : Prop :=
  ∃ r, Shows m w r ∧ ∀ a, r = .ok a → P a

variable {P : α → Prop} {R : β → Prop}

theorem Shows.quiet {r : Result α} (h : Shows m w r) : Quiet m w fun a => r = .ok a :=
  ⟨r, h, fun _ ha => ha⟩

theorem quiet_lift {r : Result α} (h : ∀ a, r = .ok a → P a) : Quiet (liftM r : Calls σ τ α) w P :=
  ⟨r, shows_lift r, h⟩

theorem quiet_pure {a : α} (h : P a) : Quiet (pure a : Calls σ τ α) w P :=
  ⟨.ok a, shows_pure a, fun b hb => by cases hb; exact h⟩

theorem Quiet.ne_ok (h : Quiet m w fun _ => False) (replies : List (Reply τ)) (a : α) :
    (exec m ⟨w, replies⟩).1 ≠ .ok a := by
  obtain ⟨r, hr, hp⟩ := h
  rw [hr]
  exact fun he => hp a he

theorem Quiet.mono {P' : α → Prop} (h : Quiet m w P) (hp : ∀ a, P a → P' a) : Quiet m w P' := by
  obtain ⟨r, hr, hpr⟩ := h
  exact ⟨r, hr, fun a ha => hp a (hpr a ha)⟩

theorem quiet_bind (h : Quiet m w P) (hf : ∀ a, P a → Quiet (f a) w R) :
    Quiet (m >>= f) w R := by
  obtain ⟨r, hr, hp⟩ := h
  cases r with
  | error e =>
    exact ⟨.error e, fun replies => Mut.exec_bind_of_error (hr replies), fun _ hb => by cases hb⟩
  | ok a =>
    obtain ⟨s, hs, hq⟩ := hf a (hp a rfl)
    exact ⟨s, shows_bind hr hs, hq⟩

theorem quiet_bind_lift {r : Result α} (h : ∀ a, r = .ok a → Quiet (f a) w R) :
    Quiet (liftM r >>= f) w R :=
  quiet_bind (quiet_lift fun _ ha => ha) h

/-! ## One list of replies -/

/-- **The contract under one list of replies.** -/
def EndsOn (m : Calls σ τ α) (w : σ) (replies : List (Reply τ)) (Q : α → Running σ τ → Prop)
    (E : σ → Prop) : Prop :=
  match exec m ⟨w, replies⟩ with
  | (.ok a, s) => Q a s
  | (.error _, s) => E s.world

variable {Q : α → Running σ τ → Prop} {S : β → Running σ τ → Prop} {E : σ → Prop}

theorem EndsOn.leaves (h : EndsOn m w replies Q E) (hq : ∀ a s, Q a s → E s.world) :
    E (m.leaves w replies) := by
  unfold EndsOn at h
  unfold Calls.leaves
  split at h
  · rename_i a s he
    rw [he]
    exact hq a s h
  · rename_i e s he
    rw [he]
    exact h

theorem EndsOn.mono {Q' : α → Running σ τ → Prop} (h : EndsOn m w replies Q E)
    (hq : ∀ a s, Q a s → Q' a s) : EndsOn m w replies Q' E := by
  unfold EndsOn at h ⊢
  split at h
  · exact hq _ _ h
  · exact h

theorem endsOn_pure {a : α} (h : Q a ⟨w, replies⟩) : EndsOn (pure a) w replies Q E := h

theorem endsOn_bind (h : EndsOn m w replies (fun a s => EndsOn (f a) s.world s.replies S E) E) :
    EndsOn (m >>= f) w replies S E := by
  unfold EndsOn at h ⊢
  rcases he : exec m ⟨w, replies⟩ with ⟨e | a, s⟩
  · rw [he] at h
    rw [Mut.exec_bind_of_error he]
    exact h
  · rw [he] at h
    rw [Mut.exec_bind_of_ok he]
    exact h

theorem endsOn_quiet (h : Quiet m w P) (hE : E w) (hQ : ∀ a, P a → Q a ⟨w, replies⟩) :
    EndsOn m w replies Q E := by
  obtain ⟨r, hr, hp⟩ := h
  unfold EndsOn
  rw [hr replies]
  cases r with
  | error e => exact hE
  | ok a => exact hQ a (hp a rfl)

/-- What follows code that makes no call starts on the same world and replies. -/
theorem endsOn_bind_quiet (h : Quiet m w P) (hE : E w)
    (hf : ∀ a, P a → EndsOn (f a) w replies S E) : EndsOn (m >>= f) w replies S E := by
  obtain ⟨r, hr, hp⟩ := h
  refine endsOn_bind ?_
  unfold EndsOn
  rw [hr replies]
  cases r with
  | error e => exact hE
  | ok a => exact hf a (hp a rfl)

theorem endsOn_bind_lift {r : Result α} (hE : E w)
    (hf : ∀ a, r = .ok a → EndsOn (f a) w replies S E) : EndsOn (liftM r >>= f) w replies S E :=
  endsOn_bind_quiet (quiet_lift fun _ ha => ha) hE hf

/-- The next call takes effect. -/
def Applied : List (Reply τ) → Prop
  | .done _ :: _ => True
  | .lost _ _ :: _ => True
  | _ => False

/-- A call that cannot fail by itself: cut off before it, cut off right after it, or done. -/
theorem endsOn_bind_call {g : τ → Mut σ α} {a : τ → α} {next : τ → σ}
    (hg : ∀ seen, exec (g seen) w = (.ok (a seen), next seen)) (hE : ¬ Applied replies → E w)
    (hlost : ∀ seen message rest, replies = .lost seen message :: rest → E (next seen))
    (hdone : ∀ seen rest, replies = .done seen :: rest → EndsOn (f (a seen)) (next seen) rest S E) :
    EndsOn (call g >>= f) w replies S E := by
  refine endsOn_bind ?_
  unfold EndsOn
  rcases replies with _ | ⟨seen | ⟨seen, message⟩ | message, rest⟩
  · exact hE fun h => h
  · rw [exec_call_done, hg]
    exact hdone seen rest rfl
  · rw [exec_call_lost, hg]
    exact hlost seen message rest rfl
  · exact hE fun h => h

/-- The last call. -/
theorem endsOn_call {g : τ → Mut σ α} {a : τ → α} {next : τ → σ}
    (hg : ∀ seen, exec (g seen) w = (.ok (a seen), next seen)) (hE : ¬ Applied replies → E w)
    (hlost : ∀ seen message rest, replies = .lost seen message :: rest → E (next seen))
    (hdone : ∀ seen rest, replies = .done seen :: rest → Q (a seen) ⟨next seen, rest⟩) :
    EndsOn (call g) w replies Q E := by
  rw [← bind_pure (call g)]
  exact endsOn_bind_call hg hE hlost hdone

/-- The next `n` calls take effect, and all but the last one show it. -/
def Inside : Nat → List (Reply τ) → Prop
  | 0, _ => True
  | 1, replies => Applied replies
  | n + 1, .done _ :: rest => Inside n rest
  | _, _ => False

theorem Inside.applied {n : Nat} (h : Inside (n + 1) replies) : Applied replies := by
  rcases replies with _ | ⟨seen | ⟨seen, message⟩ | message, rest⟩
  · cases n <;> exact h.elim
  · trivial
  · trivial
  · cases n <;> exact h.elim

/-- The process is not cut off between the next `n` calls: if the first takes effect, all do. -/
def Whole (n : Nat) (replies : List (Reply τ)) : Prop := Applied replies → Inside n replies

/-! ## Nothing fails -/

/-- Every call is done. -/
def AllDone (replies : List (Reply τ)) : Prop := ∀ r ∈ replies, ∃ seen, r = .done seen

/-- **Where nothing fails**: given `n` calls that are done, `m` returns and satisfies `T`. -/
def Succeeds (n : Nat) (m : Calls σ τ α) (w : σ) (T : α → σ → Prop) : Prop :=
  ∀ replies, n ≤ replies.length → AllDone replies →
    ∃ a w' k, k ≤ n ∧ exec m ⟨w, replies⟩ = (.ok a, ⟨w', replies.drop k⟩) ∧ T a w'

variable {T : α → σ → Prop} {U : β → σ → Prop} {n k : Nat}

theorem AllDone.drop (h : AllDone replies) (k : Nat) : AllDone (replies.drop k) :=
  fun r hr => h r (List.mem_of_mem_drop hr)

theorem Shows.succeeds {a : α} (h : Shows m w (.ok a)) (hT : T a w) : Succeeds 0 m w T :=
  fun replies _ _ => ⟨a, w, 0, Nat.le_refl 0, by rw [h replies, List.drop_zero], hT⟩

theorem Succeeds.mono {T' : α → σ → Prop} (h : Succeeds n m w T) (ht : ∀ a w', T a w' → T' a w') :
    Succeeds n m w T' := fun replies hn hdone => by
  obtain ⟨a, w', k, hk, he, hT⟩ := h replies hn hdone
  exact ⟨a, w', k, hk, he, ht a w' hT⟩

theorem Succeeds.le (h : Succeeds n m w T) (hk : n ≤ k) : Succeeds k m w T :=
  fun replies hlength hdone => by
    obtain ⟨a, w', i, hi, he, hT⟩ := h replies (Nat.le_trans hk hlength) hdone
    exact ⟨a, w', i, Nat.le_trans hi hk, he, hT⟩

theorem succeeds_bind (h : Succeeds n m w T) (hf : ∀ a w', T a w' → Succeeds k (f a) w' U) :
    Succeeds (n + k) (m >>= f) w U := by
  intro replies hlength hdone
  obtain ⟨a, w', i, hi, he, hT⟩ := h replies (by omega) hdone
  obtain ⟨b, w'', j, hj, he', hU⟩ := hf a w' hT (replies.drop i)
    (by rw [List.length_drop]; omega) (hdone.drop i)
  refine ⟨b, w'', i + j, by omega, ?_, hU⟩
  rw [Mut.exec_bind_of_ok he, he', List.drop_drop]

theorem succeeds_bind_shows {a : α} (h : Shows m w (.ok a)) (hf : Succeeds k (f a) w U) :
    Succeeds k (m >>= f) w U := by
  intro replies hlength hdone
  rw [Mut.exec_bind_of_ok (h replies)]
  exact hf replies hlength hdone

theorem succeeds_bind_lift {r : Result α} {a : α} (h : r = .ok a) (hf : Succeeds k (f a) w U) :
    Succeeds k (liftM r >>= f) w U :=
  succeeds_bind_shows (h ▸ shows_lift r) hf

theorem succeeds_bind_refuseIf {c : Bool} {message : String} {f : Unit → Calls σ τ β}
    (h : c = false) (hf : Succeeds k (f ()) w U) :
    Succeeds k (liftM (refuseIf c message) >>= f) w U :=
  succeeds_bind_lift (refuseIf_eq_ok.mpr h) hf

theorem succeeds_call {g : τ → Mut σ α}
    (h : ∀ seen, ∃ a w', exec (g seen) w = (.ok a, w') ∧ T a w') : Succeeds 1 (call g) w T := by
  intro replies hlength hdone
  rcases replies with _ | ⟨r, rest⟩
  · exact absurd hlength (by simp)
  · obtain ⟨seen, rfl⟩ := hdone r List.mem_cons_self
    obtain ⟨a, w', he, hT⟩ := h seen
    refine ⟨a, w', 1, Nat.le_refl 1, ?_, hT⟩
    rw [exec_call_done, he]
    rfl

end LumaOS.Base
