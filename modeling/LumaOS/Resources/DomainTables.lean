import LumaOS.Resources.Evolution
import Mathlib.Algebra.Order.BigOperators.Group.List
import Mathlib.Algebra.Order.Ring.Nat

/-!
# The domain table across the operations

Five operations rebuild the domain table: `restart`, `quarantine`, `clear_quarantine` and
`migrate_inventory` must carry every domain's retained bytes over (`KeepsRetained`); the credits
of `admit_reusing_retained` may lower them, by no more than the plan takes over (`Debited`). Each
loop is one use of `Table.foldlM_entries`.
-/

namespace LumaOS.Resources

open LumaOS.Base

/-- The bytes a plan reserves in `domain` at its peak. -/
def planPeak (reservations : List Reservation) (domain : String) : Nat :=
  ((reservations.filter fun r => r.domain == domain).map Reservation.peak).sum

namespace Ledger

/-- Every domain of `t` is a domain of `t'` and retains what it retained. -/
def KeepsRetained (t t' : Table Domain) : Prop :=
  ∀ (id : String) (d : Domain), t[id]? = some d →
    ∃ d' : Domain, t'[id]? = some d' ∧ d'.retained = d.retained

theorem KeepsRetained.refl (t : Table Domain) : KeepsRetained t t := fun _ d hd => ⟨d, hd, rfl⟩

theorem KeepsRetained.insert {t : Table Domain} {id : String} {d e : Domain}
    (hd : t[id]? = some d) (he : e.retained = d.retained) : KeepsRetained t (t.insert id e) := by
  intro k o ho
  rw [Table.get_insert]
  split
  · rename_i hk
    subst hk
    rw [hd] at ho
    cases ho
    exact ⟨e, rfl, he⟩
  · exact ⟨o, ho, rfl⟩

/-- A restart over a known inventory quarantines domains and changes nothing else. -/
theorem restartLoop_eq_ok {t inventory domains : Table Domain}
    (h : t.toList.foldlM (restartStep inventory) t = .ok domains) {id : String} {d : Domain}
    (hd : t[id]? = some d) : ∃ d' : Domain, domains[id]? = some d' ∧
      (d' = d ∨ d' = { d with quarantined := true }) := by
  have hstep : ∀ u e u', restartStep inventory u e = .ok u' →
      (u'[e.1]? = u[e.1]? ∨ u'[e.1]? = some { e.2 with quarantined := true }) ∧
        ∀ k, k ≠ e.1 → u'[k]? = u[k]? := by
    intro u e u' hu
    unfold restartStep at hu
    obtain ⟨live, -, hu⟩ := bind_eq_ok.mp hu
    obtain rfl := pure_eq_ok.mp hu
    split
    · exact ⟨Or.inr Table.get_insert_self, fun k hk => Table.get_insert_ne hk.symm⟩
    · exact ⟨Or.inl rfl, fun _ _ => rfl⟩
  obtain ⟨hnone, -⟩ | ⟨v, hv, hsame | hnew⟩ := Table.foldlM_entries
    (R := fun old e new => new = old ∨ new = some { e.2 with quarantined := true }) hstep h id
  · rw [hd] at hnone
    cases hnone
  · exact ⟨d, hsame.trans hd, Or.inl rfl⟩
  · rw [hd] at hv
    cases hv
    exact ⟨_, hnew, Or.inr rfl⟩

theorem restartDomains_keeps {l : Ledger} {inventory domains : Table Domain}
    (h : l.restartDomains inventory = .ok domains) : KeepsRetained l.domains domains := by
  unfold restartDomains at h
  split at h
  · rename_i he
    rw [Std.ExtTreeMap.isEmpty_iff] at he
    intro id d hd
    simp [he] at hd
  · obtain ⟨-, -, h⟩ := bind_eq_ok.mp h
    intro id d hd
    obtain ⟨d', hd', rfl | rfl⟩ := restartLoop_eq_ok h hd
    · exact ⟨_, hd', rfl⟩
    · exact ⟨_, hd', rfl⟩

theorem quarantineDomains_keeps {l : Ledger} {id : String} {d : Domain} {domains : Table Domain}
    (hd : l.domains[id]? = some d) (h : l.quarantineDomains id d = .ok domains) :
    KeepsRetained l.domains domains := by
  unfold quarantineDomains at h
  split at h
  · cases h
    exact KeepsRetained.refl _
  · obtain ⟨_, -, h⟩ := bind_eq_ok.mp h
    obtain rfl := pure_eq_ok.mp h
    exact KeepsRetained.insert hd rfl

theorem clearDomains_keeps {l : Ledger} {inventory domains : Table Domain}
    (h : l.clearDomains inventory = .ok domains) : KeepsRetained l.domains domains := by
  intro id d hd
  have hstep : ∀ t e t', clearStep t e = .ok t' →
      (∃ o n : Domain, t[e.1]? = some o ∧ t'[e.1]? = some n ∧ n.retained = o.retained) ∧
        ∀ k, k ≠ e.1 → t'[k]? = t[k]? := by
    intro t e t' ht
    unfold clearStep at ht
    simp only [bind_eq_ok, expect_eq_ok, pure_eq_ok] at ht
    obtain ⟨-, -, o, ho, _, -, rfl⟩ := ht
    exact ⟨⟨o, _, ho, Table.get_insert_self, rfl⟩,
      fun k hk => Table.get_insert_ne hk.symm⟩
  obtain ⟨-, heq⟩ | ⟨_, -, o, n, ho, hn, hret⟩ := Table.foldlM_entries
    (R := fun old _ new => ∃ o n : Domain, old = some o ∧ new = some n ∧
      n.retained = o.retained) hstep h id
  · exact ⟨d, heq.trans hd, rfl⟩
  · rw [hd] at ho
    cases ho
    exact ⟨n, hn, hret⟩

theorem migrateDomains_keeps {l : Ledger} {inventory domains : Table Domain}
    (hkept : ∀ id, id ∈ l.domains → id ∈ inventory)
    (h : l.migrateDomains inventory = .ok domains) : KeepsRetained l.domains domains := by
  intro id d hd
  have hstep : ∀ t e t', migrateStep l.domains t e = .ok t' →
      (∀ o : Domain, l.domains[e.1]? = some o →
        ∃ n : Domain, t'[e.1]? = some n ∧ n.retained = o.retained) ∧
        ∀ k, k ≠ e.1 → t'[k]? = t[k]? := by
    intro t e t' ht
    unfold migrateStep at ht
    split at ht
    · rename_i hnone
      cases ht
      refine ⟨fun o ho => ?_, fun _ _ => rfl⟩
      rw [hnone] at ho
      cases ho
    · rename_i o ho
      simp only [bind_eq_ok, pure_eq_ok] at ht
      obtain ⟨_, -, rfl⟩ := ht
      refine ⟨fun o' ho' => ?_, fun k hk => Table.get_insert_ne hk.symm⟩
      rw [ho] at ho'
      cases ho'
      exact ⟨_, Table.get_insert_self, rfl⟩
  obtain ⟨hnone, -⟩ | ⟨_, -, hold⟩ := Table.foldlM_entries
    (R := fun _ e new => ∀ o : Domain, l.domains[e.1]? = some o →
      ∃ n : Domain, new = some n ∧ n.retained = o.retained) hstep h id
  · exact absurd (hkept id (Table.mem_iff_get.mpr ⟨d, hd⟩)) (Table.not_mem_iff_get.mpr hnone)
  · exact hold d hd

theorem drainDomains_persist {l : Ledger} {retained : Table Nat} {domains : Table Domain}
    (h : l.drainDomains retained = .ok domains) {id : String} (hid : id ∈ l.domains) :
    id ∈ domains := by
  have hstep : ∀ t e t', drainStep t e = .ok t' →
      (∃ n : Domain, t'[e.1]? = some n) ∧ ∀ k, k ≠ e.1 → t'[k]? = t[k]? := by
    intro t e t' ht
    unfold drainStep at ht
    simp only [bind_eq_ok, okOr_eq_ok, pure_eq_ok] at ht
    obtain ⟨o, ho, rfl⟩ := ht
    exact ⟨⟨_, Table.get_insert_self⟩, fun k hk => Table.get_insert_ne hk.symm⟩
  obtain ⟨-, heq⟩ | ⟨_, -, hn⟩ := Table.foldlM_entries
    (R := fun _ _ new => ∃ n : Domain, new = some n) hstep h id
  · rw [Table.mem_iff_get] at hid ⊢
    rwa [heq]
  · exact Table.mem_iff_get.mpr hn

/-- A debited domain keeps at least what the plan does not take over. -/
def Debited (reservations : List Reservation) (t t' : Table Domain) : Prop :=
  ∀ (id : String) (d : Domain), t[id]? = some d → ∃ d' : Domain, t'[id]? = some d' ∧
    d'.retained ≤ d.retained ∧ d.retained ≤ d'.retained + planPeak reservations id

theorem peak_le_planPeak {rs : List Reservation} {r : Reservation} (h : r ∈ rs) :
    r.peak ≤ planPeak rs r.domain := by
  unfold planPeak
  refine List.single_le_sum (fun _ _ => Nat.zero_le _) _ (List.mem_map_of_mem ?_)
  exact List.mem_filter.mpr ⟨h, beq_self_eq_true _⟩

theorem debitCredits_debited {l : Ledger} {rs : List Reservation} {credits : Table Nat}
    {domains : Table Domain} (h : l.debitCredits rs credits = .ok domains) :
    Debited rs l.domains domains := by
  intro id d hd
  have hstep : ∀ t e t', creditStep rs t e = .ok t' →
      (∃ o n : Domain, t[e.1]? = some o ∧ t'[e.1]? = some n ∧ n.retained ≤ o.retained ∧
        o.retained ≤ n.retained + planPeak rs e.1) ∧ ∀ k, k ≠ e.1 → t'[k]? = t[k]? := by
    intro t e t' ht
    unfold creditStep at ht
    simp only [bind_eq_ok, okOr_eq_ok, pure_eq_ok, refuseIf_eq_ok, minus_eq_ok,
      Bool.or_eq_false_iff, decide_eq_false_iff_not, Nat.not_lt] at ht
    obtain ⟨plan, hplan, o, ho, _, ⟨hle, hpeak⟩, _, ⟨rfl, -⟩, rfl⟩ := ht
    have hdom : plan.domain = e.1 := by simpa using List.find?_some hplan
    have hle' := peak_le_planPeak (List.mem_of_find?_eq_some hplan)
    rw [hdom] at hle'
    refine ⟨⟨o, _, ho, Table.get_insert_self, ?_, ?_⟩,
      fun k hk => Table.get_insert_ne hk.symm⟩
    · exact Nat.sub_le _ _
    · simp only
      omega
  obtain ⟨-, heq⟩ | ⟨_, -, o, n, ho, hn, hle, hge⟩ := Table.foldlM_entries
    (R := fun old e new => ∃ o n : Domain, old = some o ∧ new = some n ∧
      n.retained ≤ o.retained ∧ o.retained ≤ n.retained + planPeak rs e.1) hstep h id
  · exact ⟨d, heq.trans hd, Nat.le_refl _, Nat.le_add_right _ _⟩
  · rw [hd] at ho
    cases ho
    exact ⟨n, hn, hle, hge⟩

end Ledger

end LumaOS.Resources
