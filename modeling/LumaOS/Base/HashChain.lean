import Mathlib.Logic.Function.Basic
import Mathlib.Data.List.Basic
import Mathlib.Data.List.Induction

/-!
# A hash chain commits to its history

The value of a chain over records `E` is built from a fixed start by `extend`, one digest for each
record: first the genesis digest of a key `K` (an installation), then the digest of every record at
its position. With `extend` and the digests collision-free, and no genesis digest among the record
digests, the value determines the key and every record (`head_inj`), so a chain is never the value
of one of its proper prefixes.

Digests have an arbitrary type: as functions on bit strings of one length, `extend` and the digests
cannot be injective, and what is assumed of them is what one assumes of a hash.
-/

namespace LumaOS.Base

/-- A chain over records `E`, for an installation `K`. -/
structure Chain (D K E : Type) where
  start : D
  extend : D → D → D
  genesis : K → D
  digest : K → Nat → E → D

namespace Chain

variable {D K E : Type}

/-- What a chain relies on. -/
structure CollisionFree (c : Chain D K E) : Prop where
  extend : Function.Injective2 c.extend
  genesis : Function.Injective c.genesis
  digest : ∀ k n, Function.Injective (c.digest k n)
  separated : ∀ k k' n e, c.genesis k ≠ c.digest k' n e

/-- The value after the records `es`, of which the first has position `n`. -/
def value (c : Chain D K E) (k : K) (v : D) (n : Nat) : List E → D
  | [] => v
  | e :: es => c.value k (c.extend v (c.digest k n e)) (n + 1) es

def head (c : Chain D K E) (k : K) (es : List E) : D :=
  c.value k (c.extend c.start (c.genesis k)) 0 es

variable {c : Chain D K E} {k k' : K} {es es' : List E} {e : E}

theorem value_concat {v : D} {n : Nat} : c.value k v n (es ++ [e]) =
    c.extend (c.value k v n es) (c.digest k (n + es.length) e) := by
  induction es generalizing v n with
  | nil => rfl
  | cons e' es ih =>
    rw [List.cons_append, value, ih, List.length_cons, value, Nat.add_right_comm]
    rfl

theorem head_concat :
    c.head k (es ++ [e]) = c.extend (c.head k es) (c.digest k es.length e) := by
  rw [head, value_concat, Nat.zero_add]
  rfl

/-- **The value determines the key and the records.** -/
theorem head_inj (hc : c.CollisionFree) (h : c.head k es = c.head k' es') :
    k = k' ∧ es = es' := by
  induction es using List.reverseRecOn generalizing es' with
  | nil =>
    rcases List.eq_nil_or_concat' es' with rfl | ⟨es', e', rfl⟩
    · exact ⟨hc.genesis (hc.extend h).2, rfl⟩
    · rw [head_concat] at h
      exact absurd (hc.extend h).2 (hc.separated k k' _ e')
  | append_singleton es e ih =>
    rw [head_concat] at h
    rcases List.eq_nil_or_concat' es' with rfl | ⟨es', e', rfl⟩
    · exact absurd (hc.extend h).2.symm (hc.separated k' k _ e)
    · rw [head_concat] at h
      obtain ⟨hhead, hdigest⟩ := hc.extend h
      obtain ⟨rfl, rfl⟩ := ih hhead
      exact ⟨rfl, by rw [hc.digest k _ hdigest]⟩

end Chain

end LumaOS.Base
