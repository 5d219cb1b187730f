import Mathlib.Data.Fintype.Basic
import Mathlib.Data.Set.Finite.List
import Mathlib.Logic.Relation
import Mathlib.Order.WellFoundedSet

/-!
# Dependency graphs

A relation `r a b`, read "`a` depends on `b`". What sorting and searching such a relation rests on:

* a list in which every dependency comes before its dependents orders an acyclic relation
  (`Topological.acyclic`), and is extended by elements whose dependencies it holds
  (`Topological.append`);
* in an acyclic relation, a nonempty finite set has an element that depends on none of them
  (`exists_source`), so peeling such elements off never gets stuck;
* a set that holds the roots, is closed under dependencies, and holds only what the roots lead to,
  is what the roots lead to (`reached_iff`).
-/

namespace LumaOS.Base

open Relation

variable {α : Type} {r : α → α → Prop}

/-- No element depends on itself, however indirectly. -/
def Acyclic (r : α → α → Prop) : Prop := ∀ a, ¬ TransGen r a a

/-- Every dependency of a listed element comes before it. -/
def Topological (r : α → α → Prop) (order : List α) : Prop :=
  ∀ earlier x later, order = earlier ++ x :: later → ∀ d, r x d → d ∈ earlier

theorem topological_nil : Topological r [] :=
  fun earlier x later h => absurd h (by simp)

/-- Elements whose dependencies are listed may follow, in any order. -/
theorem Topological.append {order ready : List α} (h : Topological r order)
    (hready : ∀ x ∈ ready, ∀ d, r x d → d ∈ order) : Topological r (order ++ ready) := by
  intro earlier x later he d hd
  rcases List.append_eq_append_iff.mp he with ⟨l, rfl, hl⟩ | ⟨l, rfl, hl⟩
  · refine List.mem_append_left l (hready x ?_ d hd)
    rw [hl]
    exact List.mem_append_right l List.mem_cons_self
  · cases l with
    | nil =>
      rw [List.nil_append] at hl
      have := hready x (by rw [← hl]; exact List.mem_cons_self) d hd
      rwa [List.append_nil] at this
    | cons y l =>
      obtain ⟨rfl, -⟩ := List.cons.inj hl
      exact h earlier x l rfl d hd

theorem Topological.idxOf_lt [DecidableEq α] {order : List α} (h : Topological r order) {a b : α}
    (ha : a ∈ order) (hab : r a b) : b ∈ order ∧ order.idxOf b < order.idxOf a := by
  obtain ⟨earlier, later, rfl, hnot⟩ := List.eq_append_cons_of_mem ha
  have hb := h earlier a later rfl b hab
  refine ⟨List.mem_append_left _ hb, ?_⟩
  rw [List.idxOf_append_of_mem hb, List.idxOf_append_of_notMem hnot, List.idxOf_cons_self]
  have := List.idxOf_lt_length_iff.mpr hb
  omega

/-- **A topological order of everything that depends on something excludes cycles.** -/
theorem Topological.acyclic {order : List α} (h : Topological r order)
    (hall : ∀ a b, r a b → a ∈ order) : Acyclic r := by
  classical
  have hlt : ∀ a b, TransGen r a b → order.idxOf b < order.idxOf a := by
    intro a b hab
    induction hab with
    | single hab => exact (h.idxOf_lt (hall _ _ hab) hab).2
    | tail _ hbc ih => exact (h.idxOf_lt (hall _ _ hbc) hbc).2.trans ih
  exact fun a ha => absurd (hlt a a ha) (Nat.lt_irrefl _)

/-- **An acyclic relation has a source in every nonempty finite set.** -/
theorem exists_source (h : Acyclic r) {s : Set α} (hs : s.Finite) (hne : s.Nonempty) :
    ∃ a ∈ s, ∀ d, r a d → d ∉ s := by
  -- "leads to", turned around, is a strict order, so a finite set has a minimal element
  have : IsStrictOrder α (fun a b => TransGen r b a) :=
    { irrefl := h, trans := fun _ _ _ hab hbc => hbc.trans hab }
  have hwf : s.WellFoundedOn (fun a b => TransGen r b a) := hs.wellFoundedOn
  obtain ⟨x, hx⟩ := hne
  obtain ⟨⟨a, ha⟩, -, hmin⟩ := hwf.has_min Set.univ ⟨⟨x, hx⟩, trivial⟩
  exact ⟨a, ha, fun d hd hmem => hmin ⟨d, hmem⟩ trivial (.single hd)⟩

/-- **What a search from the roots finds**, when it ends with a set that holds the roots and is
closed under dependencies. -/
theorem reached_iff (roots found : α → Prop) (hroots : ∀ a, roots a → found a)
    (hclosed : ∀ a d, found a → r a d → found d)
    (hsound : ∀ a, found a → ∃ root, roots root ∧ ReflTransGen r root a) (a : α) :
    found a ↔ ∃ root, roots root ∧ ReflTransGen r root a := by
  refine ⟨hsound a, ?_⟩
  rintro ⟨root, hroot, hreach⟩
  induction hreach with
  | refl => exact hroots root hroot
  | tail _ hbc ih => exact hclosed _ _ ih hbc

end LumaOS.Base
