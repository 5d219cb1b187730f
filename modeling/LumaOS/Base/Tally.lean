import Mathlib

/-!
# Counts and totals by key

Entries carry a key and an amount. `count` and `total` are what they add up to under a key, and
`Tallies t l` says that the ordered map `t` holds exactly these for the keys that occur in `l`.

* `Tallies.add`: one more entry.
* `Tallies.counts`: the counts add up to the number of entries.
* `Tallies.perm`: the order of the entries does not matter.
* `total_le`: the total of bounded amounts is bounded.
* `Tallies.absorb`: the counts and totals of further entries are added key by key.
-/

namespace LumaOS.Base

open Std

variable {κ : Type} [DecidableEq κ]

/-- How many entries have the key. -/
def count (l : List (κ × Int)) (k : κ) : Nat := (l.map Prod.fst).count k

/-- The sum of the amounts under the key. -/
def total (l : List (κ × Int)) (k : κ) : Int :=
  ((l.filter fun e => e.1 = k).map Prod.snd).sum

variable {cmp : κ → κ → Ordering} [TransCmp cmp] {l l' : List (κ × Int)}
  {t t' : ExtTreeMap κ (Nat × Int) cmp} {k : κ} {e : κ × Int} {b : Nat}

theorem count_le_length : count l k ≤ l.length := by
  rw [count, ← List.length_map (f := Prod.fst)]
  exact List.count_le_length

theorem count_append : count (l ++ [e]) k = count l k + if e.1 = k then 1 else 0 := by
  rw [count, count, List.map_append, List.count_append, List.map_singleton, List.count_singleton]
  simp

theorem total_append : total (l ++ [e]) k = total l k + if e.1 = k then e.2 else 0 := by
  rw [total, total, List.filter_append, List.map_append, List.sum_append]
  by_cases h : e.1 = k <;> simp [h]

theorem count_concat : count (l ++ l') k = count l k + count l' k := by
  rw [count, count, count, List.map_append, List.count_append]

theorem total_concat : total (l ++ l') k = total l k + total l' k := by
  rw [total, total, total, List.filter_append, List.map_append, List.sum_append]

theorem count_perm (h : l.Perm l') : count l k = count l' k :=
  (h.map Prod.fst).count_eq k

theorem total_perm (h : l.Perm l') : total l k = total l' k :=
  ((h.filter _).map Prod.snd).sum_eq

theorem count_pos : 0 < count l k ↔ k ∈ l.map Prod.fst := List.count_pos_iff

theorem total_of_count (h : count l k = 0) : total l k = 0 := by
  have hnil : (l.filter fun e => e.1 = k) = [] := by
    refine List.filter_eq_nil_iff.mpr fun e he hk => ?_
    have hpos := count_pos.mpr (List.mem_map_of_mem (f := Prod.fst) he)
    rw [of_decide_eq_true hk, h] at hpos
    exact Nat.lt_irrefl 0 hpos
  rw [total, hnil]
  rfl

/-- **Bounded amounts have a bounded total.** -/
theorem total_le (h : ∀ e ∈ l, |e.2| ≤ b) : |total l k| ≤ l.length * b := by
  have hsum : ∀ {l : List Int}, (∀ a ∈ l, |a| ≤ b) → |l.sum| ≤ l.length * b := by
    intro l
    induction l with
    | nil => simp
    | cons a l ih =>
      intro h
      have ha := h a List.mem_cons_self
      have hl := ih fun x hx => h x (List.mem_cons_of_mem a hx)
      have hadd := abs_add_le a l.sum
      rw [List.sum_cons, List.length_cons]
      push_cast
      rw [Int.add_mul, Int.one_mul]
      omega
  have hfilter : (l.filter fun e => e.1 = k).length ≤ l.length := List.length_filter_le _ _
  have hle := @hsum ((l.filter fun e => e.1 = k).map Prod.snd) fun a ha => by
    obtain ⟨e, he, rfl⟩ := List.mem_map.mp ha
    exact h e (List.mem_of_mem_filter he)
  rw [List.length_map] at hle
  refine hle.trans ?_
  exact_mod_cast Nat.mul_le_mul_right b hfilter

/-- **The map holds the count and the total of every key that occurs.** -/
def Tallies (t : ExtTreeMap κ (Nat × Int) cmp) (l : List (κ × Int)) : Prop :=
  ∀ k, t[k]? = if count l k = 0 then none else some (count l k, total l k)

theorem tallies_nil : Tallies (∅ : ExtTreeMap κ (Nat × Int) cmp) [] := fun k => by
  rw [ExtTreeMap.getElem?_empty]
  rfl

theorem Tallies.getD (h : Tallies t l) : (t[k]?).getD (0, 0) = (count l k, total l k) := by
  rw [h k]
  split
  · rename_i hzero
    rw [hzero, total_of_count hzero]
    rfl
  · rfl

variable [LawfulEqCmp cmp]

/-- **One more entry.** -/
theorem Tallies.add (h : Tallies t l) :
    Tallies (t.insert e.1 (count l e.1 + 1, total l e.1 + e.2)) (l ++ [e]) := by
  intro k
  rw [ExtTreeMap.getElem?_insert, count_append, total_append]
  simp only [LawfulEqCmp.compare_eq_iff_eq]
  by_cases hk : e.1 = k
  · subst hk
    simp
  · simpa [hk] using h k

theorem Tallies.mem_keys (h : Tallies t l) : k ∈ t.keys ↔ k ∈ l.map Prod.fst := by
  rw [ExtTreeMap.mem_keys, ExtTreeMap.mem_iff_isSome_getElem?, h k, ← count_pos]
  split <;> simp <;> omega

theorem Tallies.entry (h : Tallies t l) {v : Nat × Int} :
    (k, v) ∈ t.toList ↔ 0 < count l k ∧ v = (count l k, total l k) := by
  rw [ExtTreeMap.mem_toList_iff_getElem?_eq_some, h k]
  split
  · simp
    omega
  · rw [Option.some.injEq, eq_comm (a := v)]
    simp
    omega

/-- **The order of the entries does not matter.** -/
theorem Tallies.perm (h : Tallies t l) (h' : Tallies t' l') (hperm : l.Perm l') : t = t' :=
  ExtTreeMap.ext_getElem? fun k => by
    rw [h k, h' k, count_perm hperm, total_perm hperm]

/-- The entry of a key takes in a count and a total. -/
def absorb (t : ExtTreeMap κ (Nat × Int) cmp) (e : κ × (Nat × Int)) :
    ExtTreeMap κ (Nat × Int) cmp :=
  t.insert e.1 (((t[e.1]?).getD (0, 0)).1 + e.2.1, ((t[e.1]?).getD (0, 0)).2 + e.2.2)

theorem get_absorb {e : κ × (Nat × Int)} : (absorb t e)[k]? = if e.1 = k then
    some (((t[k]?).getD (0, 0)).1 + e.2.1, ((t[k]?).getD (0, 0)).2 + e.2.2) else t[k]? := by
  rw [absorb, ExtTreeMap.getElem?_insert]
  simp only [LawfulEqCmp.compare_eq_iff_eq]
  split
  · rename_i h
    rw [h]
  · rfl

/-- Entries of different keys leave each other alone. -/
theorem get_foldl_absorb {v : κ → Nat × Int} : ∀ {ks : List κ}
    {t : ExtTreeMap κ (Nat × Int) cmp}, ks.Nodup →
    ((ks.map fun a => (a, v a)).foldl absorb t)[k]? = if k ∈ ks then
      some (((t[k]?).getD (0, 0)).1 + (v k).1, ((t[k]?).getD (0, 0)).2 + (v k).2) else t[k]?
  | [], t, _ => by simp
  | a :: ks, t, h => by
    obtain ⟨ha, hks⟩ := List.nodup_cons.mp h
    rw [List.map_cons, List.foldl_cons, get_foldl_absorb hks, get_absorb]
    by_cases hak : a = k
    · subst hak
      simp [ha]
    · simp [hak, Ne.symm hak]

omit [DecidableEq κ] in
theorem nodup_keys : t.keys.Nodup :=
  ExtTreeMap.distinct_keys.imp fun hne he => hne (LawfulEqCmp.compare_eq_iff_eq.mpr he)

theorem Tallies.toList_eq (h : Tallies t l) :
    t.toList = t.keys.map fun k => (k, (count l k, total l k)) := by
  rw [← ExtTreeMap.map_fst_toList_eq_keys, List.map_map]
  conv_lhs => rw [← List.map_id t.toList]
  exact List.map_congr_left fun e he => Prod.ext rfl (h.entry.mp he).2

/-- **Counts and totals of further entries are added key by key.** -/
theorem Tallies.absorb (h : Tallies t l) (h' : Tallies t' l') :
    Tallies (t'.toList.foldl Base.absorb t) (l ++ l') := by
  intro k
  rw [h'.toList_eq, get_foldl_absorb nodup_keys, h.getD, count_concat, total_concat]
  by_cases hk : k ∈ t'.keys
  · have hpos := count_pos.mpr (h'.mem_keys.mp hk)
    rw [if_pos hk, if_neg (by omega)]
  · have hzero : count l' k = 0 := by
      by_contra hne
      exact hk (h'.mem_keys.mpr (count_pos.mp (by omega)))
    rw [if_neg hk, h k, hzero, total_of_count hzero, Nat.add_zero, Int.add_zero]

/-- The keys are those that occur. -/
theorem Tallies.keys_perm (h : Tallies t l) : t.keys.Perm (l.map Prod.fst).dedup :=
  (List.perm_ext_iff_of_nodup nodup_keys (List.nodup_dedup _)).mpr fun k => by
    rw [h.mem_keys, List.mem_dedup]

/-- **The counts add up to the number of entries.** -/
theorem Tallies.counts (h : Tallies t l) : (t.toList.map fun e => e.2.1).sum = l.length := by
  rw [h.toList_eq, List.map_map]
  change (t.keys.map (count l)).sum = l.length
  rw [(h.keys_perm.map (count l)).sum_eq, ← (@List.length_map _ _ l) Prod.fst,
    ← List.sum_map_count_dedup_eq_length]
  rfl

end LumaOS.Base
