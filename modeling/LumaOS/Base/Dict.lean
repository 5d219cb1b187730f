import Mathlib.Data.List.Nodup

/-!
# Dictionaries in insertion order

A Python `dict` keeps its keys in the order they were first set; setting a key again keeps its
place. `Dict` is the list of its entries, no key twice.

* `get?_set`: what a key holds after a write.
* `values_set_of_none`: a new key goes to the end.
-/

namespace LumaOS.Base

variable {α : Type}

/-- A dictionary, in insertion order. -/
structure Dict (α : Type) where
  entries : List (String × α)
  nodup : (entries.map Prod.fst).Nodup
deriving DecidableEq

namespace Dict

/-- `{}`. -/
def empty : Dict α := ⟨[], List.nodup_nil⟩

/-- `d.get(key)`. -/
def get? (d : Dict α) (key : String) : Option α := d.entries.lookup key

/-- `d.values()`. -/
def values (d : Dict α) : List α := d.entries.map Prod.snd

/-- The write of `d[key] = value` in a list of entries. -/
def assign (key : String) (value : α) : List (String × α) → List (String × α)
  | [] => [(key, value)]
  | e :: rest => if e.1 = key then (key, value) :: rest else e :: assign key value rest

variable {key other : String} {value : α} {entries : List (String × α)}

theorem keys_assign : (assign key value entries).map Prod.fst =
    if key ∈ entries.map Prod.fst then entries.map Prod.fst
    else entries.map Prod.fst ++ [key] := by
  induction entries with
  | nil => rfl
  | cons e rest ih =>
    unfold assign
    by_cases he : e.1 = key
    · simp [he]
    · rw [if_neg he, List.map_cons, ih, List.map_cons]
      by_cases hin : key ∈ rest.map Prod.fst
      · rw [if_pos hin, if_pos (List.mem_cons_of_mem _ hin)]
      · have hout : key ∉ e.1 :: rest.map Prod.fst := by
          rw [List.mem_cons, not_or]
          exact ⟨Ne.symm he, hin⟩
        rw [if_neg hin, if_neg hout, List.cons_append]

theorem nodup_assign (h : (entries.map Prod.fst).Nodup) :
    ((assign key value entries).map Prod.fst).Nodup := by
  rw [keys_assign]
  split
  · exact h
  · rename_i hout
    exact List.Nodup.append h (List.nodup_singleton key) (by simpa using hout)

/-- `d[key] = value`. -/
def set (d : Dict α) (key : String) (value : α) : Dict α :=
  ⟨assign key value d.entries, nodup_assign d.nodup⟩

theorem lookup_cons_ite (e : String × α) (rest : List (String × α)) :
    (e :: rest).lookup key = if key = e.1 then some e.2 else rest.lookup key := by
  rw [List.lookup_cons]
  by_cases h : key = e.1
  · rw [if_pos h, beq_iff_eq.mpr h]
  · rw [if_neg h, beq_eq_false_iff_ne.mpr h]

theorem lookup_assign : (assign key value entries).lookup other =
    if other = key then some value else entries.lookup other := by
  induction entries with
  | nil =>
    rw [assign, lookup_cons_ite]
  | cons e rest ih =>
    unfold assign
    by_cases he : e.1 = key
    · subst he
      rw [if_pos rfl, lookup_cons_ite, lookup_cons_ite]
      by_cases h : other = e.1
      · rw [if_pos h, if_pos h]
      · rw [if_neg h, if_neg h, if_neg h]
    · rw [if_neg he, lookup_cons_ite, ih, lookup_cons_ite]
      by_cases h : other = e.1
      · have hne : other ≠ key := h ▸ he
        rw [if_pos h, if_neg hne, if_pos h]
      · rw [if_neg h, if_neg h]

theorem get?_set (d : Dict α) : (d.set key value).get? other =
    if other = key then some value else d.get? other := lookup_assign

theorem assign_of_none (h : entries.lookup key = none) :
    assign key value entries = entries ++ [(key, value)] := by
  induction entries with
  | nil => rfl
  | cons e rest ih =>
    rw [lookup_cons_ite] at h
    split at h
    · cases h
    · rename_i he
      rw [assign, if_neg (Ne.symm he), ih h, List.cons_append]

/-- **A new key goes to the end.** -/
theorem values_set_of_none {d : Dict α} (h : d.get? key = none) :
    (d.set key value).values = d.values ++ [value] := by
  have hset : (d.set key value).entries = d.entries ++ [(key, value)] := assign_of_none h
  unfold values
  rw [hset, List.map_append]
  rfl

end Dict

end LumaOS.Base
