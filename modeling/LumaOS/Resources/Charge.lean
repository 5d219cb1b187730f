import Mathlib.Algebra.GroupWithZero.Nat
import LumaOS.Resources.Operations

/-!
# What a domain is charged

`Ledger::charged` adds peaks lease by lease and stops at the first overflow. `charged_eq_ok` reads
a success as the sum it is meant to be: the retained bytes of the domain plus the peak of every
reservation in it of every unreleased lease (`peaks`). Two ledgers with the same unreleased
reservations and the same retained bytes are charged alike (`charged_congr`), which is how an
operation that only moves lease states is seen to keep every charge.
-/

namespace LumaOS.Resources

open LumaOS.Base

/-- A lease whose reservations are charged. -/
def Lease.unreleased (lease : Lease) : Bool := lease.state != .released

/-- The peaks a lease reserves in `domain`. -/
def Lease.peaks (lease : Lease) (domain : String) : List Nat :=
  (lease.reservations.filter fun r => r.domain == domain).map Reservation.peak

namespace Ledger

/-- The reservations of the unreleased leases, lease by lease. -/
def held (l : Ledger) : List (List Reservation) :=
  (l.leases.filter Lease.unreleased).map Lease.reservations

/-- The peaks charged to `domain`. -/
def peaks (l : Ledger) (domain : String) : List Nat :=
  (l.leases.filter Lease.unreleased).flatMap fun lease => lease.peaks domain

/-- The bytes charged to a domain that retains `retained`: an unbounded sum. -/
def charge (l : Ledger) (domain : String) (retained : Nat) : Nat :=
  retained + (l.peaks domain).sum

theorem checkedAdd_eq_ok {a b v : Nat} {m : String} :
    checkedAdd a b m = .ok v ↔ v = a + b ∧ a + b < 2 ^ 64 := by
  unfold checkedAdd
  rw [okOr_eq_ok]
  split
  · rename_i h
    rw [Option.some_inj, eq_comm]
    exact (and_iff_left h).symm
  · rename_i h
    exact ⟨nofun, fun h' => absurd h'.2 h⟩

theorem minus_eq_ok {a b v : Nat} : minus a b = .ok v ↔ v = a - b ∧ b ≤ a := by
  unfold minus
  rw [expect_eq_ok]
  split
  · rename_i h
    rw [Option.some_inj, eq_comm]
    exact (and_iff_left h).symm
  · rename_i h
    exact ⟨nofun, fun h' => absurd h'.2 h⟩

/-- A checked sum returns the sum, and only when it fits (or nothing was added). -/
theorem foldlM_checkedAdd_eq_ok {m : String} {v : Nat} :
    ∀ {ps : List Nat} {r : Nat}, ps.foldlM (fun sum p => checkedAdd sum p m) r = .ok v ↔
      v = r + ps.sum ∧ (ps ≠ [] → v < 2 ^ 64)
  | [], r => by
    rw [List.foldlM_nil, pure_eq_ok]
    simp [eq_comm]
  | p :: ps, r => by
    rw [List.foldlM_cons, bind_eq_ok]
    simp only [checkedAdd_eq_ok, foldlM_checkedAdd_eq_ok, List.sum_cons]
    constructor
    · rintro ⟨_, ⟨rfl, hlt⟩, hv, hps⟩
      refine ⟨by omega, fun _ => ?_⟩
      by_cases h : ps = []
      · subst h
        simp only [List.sum_nil] at hv
        omega
      · exact hps h
    · rintro ⟨hv, hlt⟩
      have := hlt (List.cons_ne_nil p ps)
      exact ⟨r + p, ⟨rfl, by omega⟩, by omega, fun _ => this⟩

/-- The nested loop of `charged` is one checked sum over `peaks`. -/
theorem charged_eq (l : Ledger) (domain : String) :
    l.charged domain = (okOr l.domains[domain]? "unknown domain" >>= fun d =>
      (l.peaks domain).foldlM
        (fun sum p => checkedAdd sum p "resource byte accounting overflow") d.retained) := by
  unfold charged peaks Lease.peaks Lease.unreleased
  refine congrArg _ (funext fun d => ?_)
  generalize d.retained = r
  induction l.leases.filter (fun lease => lease.state != .released) generalizing r with
  | nil => rfl
  | cons lease rest ih =>
    rw [List.foldlM_cons, List.flatMap_cons, List.foldlM_append, List.foldlM_map]
    exact congrArg _ (funext fun s => ih s)

/-- **What `charged` returns**: the charge of a domain that exists, when it fits in 64 bits. -/
theorem charged_eq_ok {l : Ledger} {domain : String} {v : Nat} :
    l.charged domain = .ok v ↔ ∃ d, l.domains[domain]? = some d ∧
      v = l.charge domain d.retained ∧ (l.peaks domain ≠ [] → v < 2 ^ 64) := by
  rw [charged_eq, bind_eq_ok]
  simp only [okOr_eq_ok, foldlM_checkedAdd_eq_ok, charge]

theorem peaks_eq_of_held {l l' : Ledger} (h : l'.held = l.held) (domain : String) :
    l'.peaks domain = l.peaks domain := by
  have key : ∀ k : Ledger, k.peaks domain =
      k.held.flatMap fun rs => (rs.filter fun r => r.domain == domain).map Reservation.peak := by
    intro k
    rw [peaks, held, List.flatMap_map]
    rfl
  rw [key, key, h]

/-- Charges depend only on the reservations held and on the retained bytes. -/
theorem charged_congr {l l' : Ledger} {domain : String} (hheld : l'.held = l.held)
    (hret : l'.domains[domain]?.map Domain.retained = l.domains[domain]?.map Domain.retained) :
    l'.charged domain = l.charged domain := by
  rw [charged_eq, charged_eq, peaks_eq_of_held hheld]
  cases hd : l.domains[domain]? with
  | none =>
    rw [hd] at hret
    rw [Option.map_eq_none_iff.mp hret]
  | some d =>
    rw [hd] at hret
    obtain ⟨d', hd', he⟩ := Option.map_eq_some_iff.mp hret
    rw [hd']
    simp only [okOr, bind, Except.bind, he]

/-- A leasewise update that keeps reservations and never crosses into or out of `released` keeps
the held reservations. -/
theorem held_map {f : Lease → Lease} : ∀ {xs : List Lease},
    (∀ x ∈ xs, (f x).reservations = x.reservations) →
    (∀ x ∈ xs, (f x).unreleased = x.unreleased) →
    ((xs.map f).filter Lease.unreleased).map Lease.reservations =
      (xs.filter Lease.unreleased).map Lease.reservations
  | [], _, _ => rfl
  | x :: xs, hres, hrel => by
    obtain ⟨hx, hxs⟩ := List.forall_mem_cons.mp hres
    obtain ⟨hu, hus⟩ := List.forall_mem_cons.mp hrel
    rw [List.map_cons, List.filter_cons, List.filter_cons, hu]
    split
    · rw [List.map_cons, List.map_cons, hx, held_map hxs hus]
    · exact held_map hxs hus

theorem held_eq_nil {l : Ledger} (h : ∀ x ∈ l.leases, x.state = .released) : l.held = [] := by
  rw [held, List.filter_eq_nil_iff.mpr, List.map_nil]
  intro x hx
  simp [Lease.unreleased, h x hx]

end Ledger

end LumaOS.Resources
