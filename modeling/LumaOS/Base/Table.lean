import LumaOS.Base.Fallible
import Mathlib.Data.List.Sort
import Mathlib.Data.Set.Pairwise.List
import Std.Data.ExtTreeMap
import Std.Data.ExtTreeSet

/-!
# String-keyed ordered maps

`BTreeMap<String, V>` is `Std.ExtTreeMap String V`: ordered by key, and equal when the lookups are.
The lemmas here restate the library's `compare`-based lookups with `=` on keys, and say when a map
collected from a list keeps the list's key order (`keys_ofList`). `foldlM_entries` is the rule for
`for (key, value) in other { .. table.insert(key, ..) }`: each key is written at most once, so what
one step does to its own key is what the loop does.
-/

namespace LumaOS.Base

open Std

/-- `BTreeMap<String, V>`. -/
abbrev Table (β : Type) := ExtTreeMap String β compare

/-- `BTreeSet<String>`. -/
abbrev Names := ExtTreeSet String compare

namespace Table

variable {β γ : Type} {t : Table β} {k a : String} {v : β}

theorem get_insert : (t.insert k v)[a]? = if k = a then some v else t[a]? := by
  rw [ExtTreeMap.getElem?_insert]
  simp only [Std.compare_eq_iff_eq]

theorem get_insert_self : (t.insert k v)[k]? = some v := by
  rw [get_insert, if_pos rfl]

theorem get_insert_ne (h : k ≠ a) : (t.insert k v)[a]? = t[a]? := by
  rw [get_insert, if_neg h]

theorem get_modify {f : β → β} :
    (t.modify k f)[a]? = if k = a then t[a]?.map f else t[a]? := by
  rw [ExtTreeMap.getElem?_modify]
  simp only [Std.compare_eq_iff_eq]
  split
  · rename_i h
    rw [h]
  · rfl

theorem get_map {f : String → β → γ} : (t.map f)[a]? = t[a]?.map (f a) := by
  rw [ExtTreeMap.getElem?_map]

theorem mem_iff_get : a ∈ t ↔ ∃ v, t[a]? = some v := by
  rw [ExtTreeMap.mem_iff_isSome_getElem?, Option.isSome_iff_exists]

theorem not_mem_iff_get : a ∉ t ↔ t[a]? = none := by
  rw [mem_iff_get]
  cases t[a]? <;> simp

theorem mem_toList_iff_get {e : String × β} : e ∈ t.toList ↔ t[e.1]? = some e.2 :=
  ExtTreeMap.mem_toList_iff_getElem?_eq_some

theorem mem_keys_iff_get : a ∈ t.keys ↔ ∃ v, t[a]? = some v := by
  rw [ExtTreeMap.mem_keys, mem_iff_get]

theorem compare_eq_lt : compare k a = .lt ↔ k < a := by
  rw [show compare k a = compareOfLessAndEq k a from rfl, compareOfLessAndEq_eq_lt]

theorem sorted_keys : t.keys.Pairwise (· < ·) :=
  ExtTreeMap.ordered_keys.imp fun h => compare_eq_lt.mp h

theorem ne_of_lt (h : k < a) : k ≠ a := fun e => String.lt_irrefl a (e ▸ h)

/-- A map collected from a list with strictly increasing keys keeps the keys in list order. -/
theorem keys_ofList {l : List (String × β)} (h : (l.map Prod.fst).Pairwise (· < ·)) :
    (ExtTreeMap.ofList l compare).keys = l.map Prod.fst := by
  have hmem : ∀ x, x ∈ (ExtTreeMap.ofList l compare).keys ↔ x ∈ l.map Prod.fst := by
    intro x
    rw [ExtTreeMap.mem_keys, ExtTreeMap.mem_ofList, List.contains_iff_mem]
  have hnd : ∀ {l' : List String}, l'.Pairwise (· < ·) → l'.Nodup := fun h' =>
    h'.imp fun hlt => ne_of_lt hlt
  have hperm : (ExtTreeMap.ofList l compare).keys.Perm (l.map Prod.fst) :=
    (List.perm_ext_iff_of_nodup (hnd sorted_keys) (hnd h)).mpr hmem
  exact hperm.eq_of_pairwise
    (fun _ _ _ _ hab hba => absurd hba (String.lt_asymm hab)) sorted_keys h

/-- A list of keys in order is the key list of a map that has exactly these. -/
theorem keys_eq {l : List String} (hsorted : l.Pairwise (· < ·)) (hmem : ∀ k, k ∈ t ↔ k ∈ l) :
    t.keys = l := by
  have hperm : t.keys.Perm l := (List.perm_ext_iff_of_nodup
    (sorted_keys.imp fun hlt => ne_of_lt hlt) (hsorted.imp fun hlt => ne_of_lt hlt)).mpr
      fun k => ExtTreeMap.mem_keys.trans (hmem k)
  exact hperm.eq_of_pairwise (fun _ _ _ _ hab hba => absurd hba (String.lt_asymm hab)) sorted_keys
    hsorted

/-- The lookup in a map collected from a list with strictly increasing keys. -/
theorem get_ofList {l : List (String × β)} (h : (l.map Prod.fst).Pairwise (· < ·))
    {e : String × β} (he : e ∈ l) : (ExtTreeMap.ofList l compare)[e.1]? = some e.2 := by
  refine ExtTreeMap.getElem?_ofList_of_mem (compare_self) ?_ he
  rw [List.pairwise_map] at h
  exact h.imp fun hlt => by simpa [Std.compare_eq_iff_eq] using ne_of_lt hlt

/-! ## Loops over the entries of another map -/

theorem nodup_fst_toList : (t.toList.map Prod.fst).Nodup := by
  rw [ExtTreeMap.map_fst_toList_eq_keys]
  exact sorted_keys.imp fun hlt => ne_of_lt hlt

/-- A loop whose step changes only its own key, as `R` says, changes every listed key as `R` says
and no other. -/
theorem foldlM_list {f : Table β → String × γ → Result (Table β)}
    {R : Option β → String × γ → Option β → Prop}
    (hf : ∀ t e t', f t e = .ok t' → R t[e.1]? e t'[e.1]? ∧ ∀ k, k ≠ e.1 → t'[k]? = t[k]?) :
    ∀ {es : List (String × γ)} {t t' : Table β}, (es.map Prod.fst).Nodup →
      es.foldlM f t = .ok t' → ∀ k : String, (k ∉ es.map Prod.fst ∧ t'[k]? = t[k]?) ∨
        ∃ c, (k, c) ∈ es ∧ R t[k]? (k, c) t'[k]?
  | [], t, t', _, h, k => by
    rw [List.foldlM_nil, pure_eq_ok] at h
    subst h
    exact Or.inl ⟨by simp, rfl⟩
  | e :: es, t, t', hnd, h, k => by
    rw [List.foldlM_cons, bind_eq_ok] at h
    obtain ⟨t1, h1, h2⟩ := h
    rw [List.map_cons, List.nodup_cons] at hnd
    obtain ⟨he, hothers⟩ := hf t e t1 h1
    have ih := foldlM_list hf hnd.2 h2
    by_cases hk : k = e.1
    · -- the rest of the loop never meets this key again
      subst hk
      obtain ⟨-, heq⟩ | ⟨c, hc, -⟩ := ih e.1
      · rw [← heq] at he
        exact Or.inr ⟨e.2, List.mem_cons_self, he⟩
      · exact absurd (List.mem_map_of_mem (f := Prod.fst) hc) hnd.1
    · have hsame := hothers k hk
      obtain ⟨hnot, heq⟩ | ⟨c, hc, hR⟩ := ih k
      · exact Or.inl ⟨by simpa [hk] using hnot, heq.trans hsame⟩
      · rw [hsame] at hR
        exact Or.inr ⟨c, List.mem_cons_of_mem e hc, hR⟩

/-- **The rule for a loop over the entries of `u` that writes each entry's own key.** -/
theorem foldlM_entries {f : Table β → String × γ → Result (Table β)}
    {R : Option β → String × γ → Option β → Prop}
    (hf : ∀ t e t', f t e = .ok t' → R t[e.1]? e t'[e.1]? ∧ ∀ k, k ≠ e.1 → t'[k]? = t[k]?)
    {u : Table γ} {t t' : Table β} (h : u.toList.foldlM f t = .ok t') (k : String) :
    (u[k]? = none ∧ t'[k]? = t[k]?) ∨ ∃ v, u[k]? = some v ∧ R t[k]? (k, v) t'[k]? := by
  obtain ⟨hnot, heq⟩ | ⟨v, hv, hR⟩ := foldlM_list hf nodup_fst_toList h k
  · rw [ExtTreeMap.map_fst_toList_eq_keys, ExtTreeMap.mem_keys, not_mem_iff_get] at hnot
    exact Or.inl ⟨hnot, heq⟩
  · exact Or.inr ⟨v, mem_toList_iff_get.mp hv, hR⟩

/-! ## Removing a list of keys -/

theorem get_erase : (t.erase k)[a]? = if k = a then none else t[a]? := by
  rw [ExtTreeMap.getElem?_erase]
  simp only [Std.compare_eq_iff_eq]

theorem get_eraseAll : ∀ {l : List String} {t : Table β},
    (l.foldl (fun t k => t.erase k) t)[a]? = if a ∈ l then none else t[a]?
  | [], t => by simp
  | k :: l, t => by
    rw [List.foldl_cons, get_eraseAll, get_erase]
    by_cases hk : k = a
    · simp [hk]
    · simp [hk, Ne.symm hk]

theorem size_eraseAll_le : ∀ (l : List String) (t : Table β),
    (l.foldl (fun t k => t.erase k) t).size ≤ t.size
  | [], _ => Nat.le_refl _
  | k :: l, t => (size_eraseAll_le l (t.erase k)).trans ExtTreeMap.size_erase_le

theorem size_eraseAll_lt {l : List String} (h : k ∈ t) :
    ((k :: l).foldl (fun t k => t.erase k) t).size < t.size := by
  refine (size_eraseAll_le l (t.erase k)).trans_lt ?_
  have hpos : t.size ≠ 0 := fun h0 => by
    rw [ExtTreeMap.eq_empty_iff_size_eq_zero.mpr h0] at h
    exact ExtTreeMap.not_mem_empty h
  rw [ExtTreeMap.size_erase, if_pos (ExtTreeMap.mem_iff_contains.mp h)]
  omega

theorem isEmpty_iff_get : t.isEmpty = true ↔ ∀ a : String, t[a]? = none := by
  rw [ExtTreeMap.isEmpty_iff, ExtTreeMap.eq_empty_iff_forall_not_mem]
  simp only [not_mem_iff_get]

theorem mem_insertAll {α : Type} {key : α → String} {val : α → β} :
    ∀ {l : List α} {t : Table β},
      a ∈ l.foldl (fun t x => t.insert (key x) (val x)) t ↔ a ∈ l.map key ∨ a ∈ t
  | [], t => by simp
  | x :: l, t => by
    rw [List.foldl_cons, mem_insertAll, ExtTreeMap.mem_insert, Std.compare_eq_iff_eq, List.map_cons,
      List.mem_cons, eq_comm (a := key x), or_left_comm, or_assoc]

/-- A map collected from entries of different keys. -/
theorem get_insertAll {α : Type} {key : α → String} {val : α → β} : ∀ {l : List α} {t : Table β},
    (l.map key).Nodup → ((l.foldl (fun t x => t.insert (key x) (val x)) t)[a]? = some v ↔
      (∃ x ∈ l, key x = a ∧ val x = v) ∨ (a ∉ l.map key ∧ t[a]? = some v))
  | [], t, _ => by simp
  | x :: l, t, h => by
    obtain ⟨hx, hl⟩ := List.nodup_cons.mp h
    rw [List.foldl_cons, get_insertAll hl, get_insert]
    by_cases hkey : key x = a
    · subst hkey
      simp only [List.mem_map] at hx
      simp [hx, or_comm]
    · simp [hkey, Ne.symm hkey]

theorem insertAll_toList : t.toList.foldl (fun u e => u.insert e.1 e.2) ∅ = t := by
  refine ExtTreeMap.ext_getElem? fun k => Option.ext fun v => ?_
  rw [get_insertAll nodup_fst_toList]
  constructor
  · rintro (⟨e, he, rfl, rfl⟩ | ⟨-, h⟩)
    · exact mem_toList_iff_get.mp he
    · simp at h
  · exact fun h => Or.inl ⟨(k, v), mem_toList_iff_get.mpr h, rfl, rfl⟩

theorem get_filter {p : String → β → Bool} :
    (t.filter p)[a]? = some v ↔ t[a]? = some v ∧ p a v = true := by
  rw [ExtTreeMap.getElem?_filter', Option.filter_eq_some_iff]

theorem toList_insertAll_perm {α : Type} {key : α → String} (val : α → β) {l : List α}
    (h : (l.map key).Nodup) : (l.foldl (fun t x => t.insert (key x) (val x))
      (∅ : Table β)).toList.Perm (l.map fun x => (key x, val x)) := by
  refine (List.perm_ext_iff_of_nodup (List.Nodup.of_map _ nodup_fst_toList) ?_).mpr fun e => ?_
  · refine List.Nodup.of_map Prod.fst ?_
    rwa [List.map_map]
  · rw [mem_toList_iff_get, get_insertAll h, List.mem_map]
    simp [Prod.ext_iff]

theorem sorted_toList : t.toList.Pairwise fun e f => e.1 < f.1 :=
  ExtTreeMap.ordered_keys_toList.imp fun h => compare_eq_lt.mp h

/-- A new key finds its place among the others. -/
theorem toList_insert_split (h : t[k]? = none) :
    ∃ before after, t.toList = before ++ after ∧
      (t.insert k v).toList = before ++ (k, v) :: after := by
  have hmem : (k, v) ∈ (t.insert k v).toList := mem_toList_iff_get.mpr get_insert_self
  obtain ⟨before, after, hsplit⟩ := List.append_of_mem hmem
  have hsorted : (before ++ (k, v) :: after).Pairwise fun e f => e.1 < f.1 :=
    hsplit ▸ sorted_toList
  have hless : (before ++ after).Pairwise fun e f => e.1 < f.1 :=
    hsorted.sublist ((List.Sublist.refl before).append (List.sublist_cons_self ..))
  have hnodup : ∀ {l : List (String × β)}, (l.Pairwise fun e f => e.1 < f.1) → l.Nodup :=
    fun hl => hl.imp fun hlt he => ne_of_lt hlt (congrArg Prod.fst he)
  refine ⟨before, after, ?_, hsplit⟩
  refine ((List.perm_ext_iff_of_nodup (hnodup sorted_toList) (hnodup hless)).mpr fun e => ?_)
    |>.eq_of_pairwise (fun _ _ _ _ hab hba => absurd hba (String.lt_asymm hab)) sorted_toList hless
  have hiff : e ∈ (t.insert k v).toList ↔ e ∈ before ++ (k, v) :: after := by rw [hsplit]
  have hnot : (k, v) ∉ before ++ after := fun hin =>
    (List.nodup_cons.mp (List.nodup_middle.mp (hnodup hsorted))).1 hin
  rw [mem_toList_iff_get, get_insert] at hiff
  rw [mem_toList_iff_get]
  by_cases hk : k = e.1
  · constructor
    · intro he
      rw [← hk, h] at he
      cases he
    · intro he
      rw [if_pos hk] at hiff
      have hv := hiff.mpr (by simp only [List.mem_append, List.mem_cons] at he ⊢; tauto)
      refine absurd ?_ hnot
      rw [show (k, v) = e from Prod.ext hk (Option.some.inj hv)]
      exact he
  · rw [if_neg hk] at hiff
    rw [hiff]
    have hne : e ≠ (k, v) := fun he => hk (congrArg Prod.fst he).symm
    simp [hne]

/-! ### Maps of one entry -/

/-- The map of one entry. -/
def single (k : String) (v : β) : Table β := (∅ : Table β).insert k v

theorem get_single : (single k v)[a]? = if k = a then some v else none := by
  rw [single, get_insert, ExtTreeMap.getElem?_empty]

theorem keys_single : (single k v).keys = [k] := by
  refine keys_eq (List.pairwise_singleton _ _) fun a => ?_
  rw [mem_iff_get, get_single, List.mem_singleton]
  by_cases h : k = a <;> simp [h, eq_comm]

theorem insert_insert {v' : β} : (t.insert k v).insert k v' = t.insert k v' :=
  ExtTreeMap.ext_getElem? fun a => by
    rw [get_insert, get_insert, get_insert]
    split <;> rfl

theorem modify_insert {f : β → β} : (t.insert k v).modify k f = t.insert k (f v) :=
  ExtTreeMap.ext_getElem? fun a => by
    rw [get_modify, get_insert, get_insert]
    split <;> rfl

theorem erase_insert (h : t[k]? = none) : (t.insert k v).erase k = t :=
  ExtTreeMap.ext_getElem? fun a => by
    rw [get_erase, get_insert]
    split
    · rename_i hk
      rw [← hk, h]
    · rfl

theorem eq_empty_of_keys (h : t.keys = []) : t = ∅ :=
  ExtTreeMap.ext_getElem? fun a => by
    rw [ExtTreeMap.getElem?_empty, ← not_mem_iff_get, ← ExtTreeMap.mem_keys, h]
    exact List.not_mem_nil

/-! ### Values -/

/-- `map.values()`, in key order. -/
def values (t : Table β) : List β := t.toList.map Prod.snd

theorem mem_values : v ∈ values t ↔ ∃ a : String, t[a]? = some v := by
  unfold values
  constructor
  · intro h
    obtain ⟨e, he, rfl⟩ := List.mem_map.mp h
    exact ⟨e.1, mem_toList_iff_get.mp he⟩
  · rintro ⟨a, ha⟩
    exact List.mem_map.mpr ⟨(a, v), mem_toList_iff_get.mpr ha, rfl⟩

/-- What holds of the values in pairs holds of the entries of different keys. -/
theorem pairwise_values {R : β → β → Prop} (hsymm : ∀ x y, R x y → R y x) :
    (values t).Pairwise R ↔
      ∀ (a b : String) x y, t[a]? = some x → t[b]? = some y → a ≠ b → R x y := by
  have hnodup : t.toList.Nodup := List.Nodup.of_map _ nodup_fst_toList
  have : Std.Symm fun e f : String × β => R e.2 f.2 := ⟨fun _ _ => hsymm _ _⟩
  unfold values
  rw [List.pairwise_map, ← hnodup.pairwise_coe]
  constructor
  · intro h a b x y ha hb hne
    have hx : (a, x) ∈ t.toList := mem_toList_iff_get.mpr ha
    have hy : (b, y) ∈ t.toList := mem_toList_iff_get.mpr hb
    exact h hx hy fun he => hne (congrArg Prod.fst he)
  · intro h e he f hf hne
    have he := mem_toList_iff_get.mp he
    have hf := mem_toList_iff_get.mp hf
    refine h e.1 f.1 e.2 f.2 he hf fun hkey => hne (Prod.ext hkey ?_)
    rw [hkey, hf] at he
    exact (Option.some.inj he).symm

end Table

/-! ## Sets of names -/

namespace Names

variable {s : Names} {k a : String}

theorem mem_insert : a ∈ s.insert k ↔ k = a ∨ a ∈ s := by
  rw [ExtTreeSet.mem_insert, Std.compare_eq_iff_eq]

theorem mem_insertAll : ∀ {l : List String} {s : Names},
    a ∈ l.foldl (fun s k => s.insert k) s ↔ a ∈ l ∨ a ∈ s
  | [], s => by simp
  | k :: l, s => by
    rw [List.foldl_cons, mem_insertAll, mem_insert, List.mem_cons, eq_comm (a := k)]
    tauto

theorem mem_eraseAll : ∀ {l : List String} {s : Names},
    a ∈ l.foldl (fun s k => s.erase k) s ↔ a ∉ l ∧ a ∈ s
  | [], s => by simp
  | k :: l, s => by
    rw [List.foldl_cons, mem_eraseAll, ExtTreeSet.mem_erase, ne_eq, Std.compare_eq_iff_eq,
      List.mem_cons, eq_comm (a := k)]
    tauto

theorem isEmpty_iff_mem : s.isEmpty = true ↔ ∀ a, a ∉ s := by
  rw [ExtTreeSet.isEmpty_iff, ExtTreeSet.eq_empty_iff_forall_not_mem]

theorem nodup_toList : s.toList.Nodup :=
  ExtTreeSet.distinct_toList.imp fun hne he => hne (Std.compare_eq_iff_eq.mpr he)

theorem mem_toList : a ∈ s.toList ↔ a ∈ s := ExtTreeSet.mem_toList

end Names

end LumaOS.Base
