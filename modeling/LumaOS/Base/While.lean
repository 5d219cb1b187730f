import LumaOS.Base.Fallible

/-!
# Loops with a bound on their iterations

`while let ..` and `while !xs.is_empty()` loops over an explicit state: one turn of the loop goes
again, is done, or fails. `turns step n s` runs at most `n` turns, so `none` is a loop that has not
ended yet; `loop step n s` is the loop itself, for an `n` that is enough.

* `turns_isSome`: a state that a measure bounds ends, in as many turns as the measure plus one.
* `turns_rule`: what an invariant gives at the end of a loop, whichever way it ends.
* `loop_rule` puts both together, and is what a proof about a loop uses.
-/

namespace LumaOS.Base

/-- What one turn of a loop did. -/
inductive Turn (σ α : Type) where
  | again (state : σ)
  | done (result : α)

variable {σ α : Type}

/-- At most `n` turns of a loop; `none` when it has not ended by then. -/
def turns (step : σ → Result (Turn σ α)) : Nat → σ → Option (Result α)
  | 0, _ => none
  | n + 1, s =>
    match step s with
    | .error e => some (.error e)
    | .ok (.done a) => some (.ok a)
    | .ok (.again s') => turns step n s'

/-- The loop, of which `n` turns are enough. -/
def loop (step : σ → Result (Turn σ α)) (n : Nat) (s : σ) : Result α :=
  (turns step n s).getD (.error (.panicked "the loop has not ended"))

variable {step : σ → Result (Turn σ α)}

/-- **A measured loop ends.** -/
theorem turns_isSome (measure : σ → Nat)
    (hstep : ∀ s s', step s = .ok (.again s') → measure s' < measure s) :
    ∀ n s, measure s < n → (turns step n s).isSome = true := by
  intro n
  induction n with
  | zero => intro s h; omega
  | succ n ih =>
    intro s h
    unfold turns
    split
    · rfl
    · rfl
    · rename_i s' hs
      have := hstep s s' hs
      exact ih s' (by omega)

/-- What a turn has to establish: the invariant for the next one, or what holds at the end. -/
def Turns (step : σ → Result (Turn σ α)) (I : σ → Prop) (Q : Result α → Prop) (s : σ) : Prop :=
  match step s with
  | .error e => Q (.error e)
  | .ok (.done a) => Q (.ok a)
  | .ok (.again s') => I s'

/-- **The invariant rule.** -/
theorem turns_rule {I : σ → Prop} {Q : Result α → Prop} (hstep : ∀ s, I s → Turns step I Q s) :
    ∀ n s r, I s → turns step n s = some r → Q r := by
  intro n
  induction n with
  | zero =>
    intro s r _ h
    cases h
  | succ n ih =>
    intro s r hs h
    have ht := hstep s hs
    unfold turns at h
    unfold Turns at ht
    split at h
    · rename_i e he
      rw [he] at ht
      cases h
      exact ht
    · rename_i a ha
      rw [ha] at ht
      cases h
      exact ht
    · rename_i s' hs'
      rw [hs'] at ht
      exact ih s' r ht h

/-- **The rule for a measured loop.** -/
theorem loop_rule (measure : σ → Nat) {I : σ → Prop} {Q : Result α → Prop}
    (hmeasure : ∀ s s', step s = .ok (.again s') → measure s' < measure s)
    (hstep : ∀ s, I s → Turns step I Q s) {n : Nat} {s : σ} (hn : measure s < n) (hs : I s) :
    Q (loop step n s) := by
  obtain ⟨r, hr⟩ := Option.isSome_iff_exists.mp (turns_isSome measure hmeasure n s hn)
  unfold loop
  rw [hr, Option.getD_some]
  exact turns_rule hstep n s r hs hr

end LumaOS.Base
