import LumaOS.Json.Reader
import LumaOS.Json.Size
import LumaOS.Base.Table

/-!
# Reading fields back

`serde_json::from_slice::<T>` of a record `T`: the bytes are read as a value and the fields of `T`
are taken from it. The repository compares a decoded record with the bytes it came from, so fields
that are unknown, repeated or out of order need no rule of their own here.

* `decodeAs_toVec`: a record's own bytes decode to it.
-/

namespace LumaOS.Json

open LumaOS.Base LumaOS.Text

/-- A `u32` field. -/
def Value.asU32 : Value → Option UInt32
  | .number n => if 0 ≤ n ∧ n < 2 ^ 32 then some (UInt32.ofNat n.toNat) else none
  | _ => none

/-- An `Option<T>` field. -/
def Value.asOptional {α : Type} (read : Value → Option α) : Value → Option (Option α)
  | .null => some none
  | v => (read v).map some

def Value.asBool : Value → Option Bool
  | .bool b => some b
  | _ => none

/-- `decimal::deserialize`: a `u64` spelled as it prints. -/
def Value.asDecimal : Value → Option Nat
  | .string s =>
    let n := Nat.ofDigitChars 10 s.toList 0
    if n < 2 ^ 64 ∧ toString n = s then some n else none
  | _ => none

/-- A `Vec<T>`. -/
def Value.asItems {α : Type} (read : Value → Option α) : Value → Option (List α)
  | .array items => items.mapM read
  | _ => none

/-- A `BTreeMap<String, T>`. -/
def Value.asTable {α : Type} (read : Value → Option α) : Value → Option (Table α)
  | .object fields => do
    let entries ← fields.mapM fun f => (read f.2).map fun a => (f.1, a)
    pure (entries.foldl (fun t e => t.insert e.1 e.2) ∅)
  | _ => none

/-- A field that is left out where it has its default. -/
def Value.getOr {α : Type} (value : Value) (key : String) (read : Value → Option α)
    (default : α) : Option α :=
  match value with
  | .object fields =>
    match fields.find? fun f => f.1 == key with
    | some f => read f.2
    | none => some default
  | _ => none

/-- `serde_json::from_slice::<T>`. -/
def decodeAs {α : Type} (ofJson : Value → Option α) (bytes : Bytes) : Option α :=
  match fromSlice bytes with
  | .ok v => ofJson v
  | .error _ => none

variable {α : Type}

@[simp] theorem asStr_string (s : String) : (Value.string s).asStr = some s := rfl

@[simp] theorem asU32_u32Json (n : UInt32) : (u32Json n).asU32 = some n := by
  have hlt : (n.toNat : Int) < 2 ^ 32 := by exact_mod_cast n.toNat_lt
  simp only [u32Json, Value.asU32]
  rw [if_pos ⟨Int.natCast_nonneg _, hlt⟩, Int.toNat_natCast, UInt32.ofNat_toNat]

@[simp] theorem asU64_u64Json (n : UInt64) : (u64Json n).asU64 = some n := by
  have hlt : (n.toNat : Int) < 2 ^ 64 := by exact_mod_cast n.toNat_lt
  simp only [u64Json, Value.asU64]
  rw [if_pos ⟨Int.natCast_nonneg _, hlt⟩, Int.toNat_natCast, UInt64.ofNat_toNat]

/-- What is written item by item reads back item by item. -/
theorem mapM_map_eq_some {β : Type} {f : α → β} {g : β → Option α} {l : List α}
    (h : ∀ a ∈ l, g (f a) = some a) : (l.map f).mapM g = some l := by
  induction l with
  | nil => rfl
  | cons a l ih =>
    rw [List.map_cons, List.mapM_cons, h a List.mem_cons_self,
      ih fun b hb => h b (List.mem_cons_of_mem a hb)]
    rfl

theorem asDecimal_decimal {n : Nat} (h : n < 2 ^ 64) : (decimal n).asDecimal = some n := by
  have hdigits : Nat.ofDigitChars 10 (toString n).toList 0 = n := by
    rw [show (toString n).toList = Nat.toDigits 10 n from String.toList_ofList ..]
    exact Nat.ofDigitChars_ten_toDigits
  simp only [decimal, Value.asDecimal, hdigits]
  rw [if_pos ⟨h, trivial⟩]

theorem lt_of_asDecimal {v : Value} {n : Nat} (h : v.asDecimal = some n) : n < 2 ^ 64 := by
  cases v with
  | string s =>
    simp only [Value.asDecimal] at h
    split at h
    · rename_i hs
      cases h
      exact hs.1
    · cases h
  | _ => cases h

theorem asItems_map {read : Value → Option α} {toJson : α → Value} {l : List α}
    (h : ∀ a ∈ l, read (toJson a) = some a) :
    (Value.array (l.map toJson)).asItems read = some l :=
  mapM_map_eq_some h

/-- What was read of an array was read of an item. -/
theorem mem_of_mapM {β : Type} {f : β → Option α} : ∀ {l : List β} {l' : List α},
    l.mapM f = some l' → ∀ a ∈ l', ∃ b ∈ l, f b = some a
  | [], _, h, a, ha => by
    cases h
    cases ha
  | b :: l, l', h, a, ha => by
    simp only [List.mapM_cons, Option.bind_eq_bind, Option.bind_eq_some_iff, Option.pure_def,
      Option.some.injEq] at h
    obtain ⟨x, hx, xs, hxs, rfl⟩ := h
    obtain rfl | ha := List.mem_cons.mp ha
    · exact ⟨b, List.mem_cons_self, hx⟩
    · obtain ⟨c, hc, hread⟩ := mem_of_mapM hxs a ha
      exact ⟨c, List.mem_cons_of_mem b hc, hread⟩

theorem mem_of_asItems {read : Value → Option α} {v : Value} {l : List α}
    (h : v.asItems read = some l) {a : α} (ha : a ∈ l) : ∃ w, read w = some a := by
  cases v with
  | array items =>
    obtain ⟨w, -, hw⟩ := mem_of_mapM h a ha
    exact ⟨w, hw⟩
  | _ => cases h

theorem asTable_toList {read : Value → Option α} {toJson : α → Value} {t : Table α}
    (h : ∀ (k : String) a, t[k]? = some a → read (toJson a) = some a) :
    (Value.object (t.toList.map fun e => (e.1, toJson e.2))).asTable read = some t := by
  have hentries : (t.toList.map fun e => (e.1, toJson e.2)).mapM
      (fun f => (read f.2).map fun a => (f.1, a)) = some t.toList := by
    refine mapM_map_eq_some fun e he => ?_
    rw [h e.1 e.2 (Table.mem_toList_iff_get.mp he)]
    rfl
  rw [Value.asTable, hentries]
  exact congrArg some Table.insertAll_toList

/-- What was read of a map was read of one of its values. -/
theorem get_of_asTable {read : Value → Option α} {v : Value} {t : Table α}
    (h : v.asTable read = some t) {k : String} {a : α} (ha : t[k]? = some a) :
    ∃ w, read w = some a := by
  have hloop : ∀ (es : List (String × α)) (u : Table α),
      (es.foldl (fun t e => t.insert e.1 e.2) u)[k]? = some a →
        (∃ e ∈ es, e.2 = a) ∨ u[k]? = some a := by
    intro es
    induction es with
    | nil => exact fun u hu => Or.inr hu
    | cons e es ih =>
      intro u hu
      obtain ⟨f, hf, rfl⟩ | hinsert := ih _ hu
      · exact Or.inl ⟨f, List.mem_cons_of_mem e hf, rfl⟩
      · rw [Table.get_insert] at hinsert
        split at hinsert
        · cases hinsert
          exact Or.inl ⟨e, List.mem_cons_self, rfl⟩
        · exact Or.inr hinsert
  cases v with
  | object fields =>
    simp only [Value.asTable, Option.bind_eq_bind, Option.bind_eq_some_iff, Option.pure_def,
      Option.some.injEq] at h
    obtain ⟨entries, hentries, rfl⟩ := h
    obtain ⟨e, he, rfl⟩ | hempty := hloop entries ∅ ha
    · obtain ⟨f, -, hf⟩ := mem_of_mapM hentries e he
      simp only [Option.map_eq_some_iff] at hf
      obtain ⟨a, hread, rfl⟩ := hf
      exact ⟨f.2, hread⟩
    · rw [Std.ExtTreeMap.getElem?_empty] at hempty
      cases hempty
  | _ => cases h

/-- An optional field reads back when what is written for a value is not `null`. -/
theorem asOptional_optional {read : Value → Option α} {toJson : α → Value}
    (h : ∀ a, read (toJson a) = some a ∧ toJson a ≠ .null) (o : Option α) :
    (optional toJson o).asOptional read = some o := by
  cases o with
  | none => rfl
  | some a =>
    obtain ⟨hread, hnull⟩ := h a
    simp only [optional]
    cases hv : toJson a with
    | null => exact absurd hv hnull
    | _ => rw [hv] at hread; simp only [Value.asOptional, hread, Option.map_some]

@[simp] theorem asOptional_string (o : Option String) :
    (optional Value.string o).asOptional Value.asStr = some o := by
  have h : ∀ s, (Value.string s).asStr = some s ∧ Value.string s ≠ .null :=
    fun s => ⟨rfl, Value.noConfusion⟩
  exact asOptional_optional h o

theorem depths_map {toJson : α → Value} {n : Nat} (h : ∀ a, depth (toJson a) ≤ n) (l : List α) :
    depths (l.map toJson) ≤ n := by
  induction l with
  | nil => exact Nat.zero_le _
  | cons a l ih =>
    rw [List.map_cons, depths]
    exact Nat.max_le.mpr ⟨h a, ih⟩

theorem fieldDepths_map {toJson : α → Value} {n : Nat} (h : ∀ a, depth (toJson a) ≤ n)
    (l : List (String × α)) : fieldDepths (l.map fun e => (e.1, toJson e.2)) ≤ n := by
  induction l with
  | nil => exact Nat.zero_le _
  | cons e l ih =>
    rw [List.map_cons, fieldDepths]
    exact Nat.max_le.mpr ⟨h e.2, ih⟩

theorem depth_optional {toJson : α → Value} {n : Nat} (h : ∀ a, depth (toJson a) ≤ n)
    (o : Option α) : depth (optional toJson o) ≤ n := by
  cases o with
  | none => exact Nat.zero_le _
  | some a => exact h a

/-- A number below `10 ^ k` takes at most `k` digits. -/
theorem sizeBound_nat {n k : Nat} (hk : 0 < k) (h : n < 10 ^ k) :
    sizeBound (.number (n : Int)) ≤ k := by
  rw [sizeBound, size_nat]
  exact (Nat.length_toDigits_le_iff (by decide) hk).mpr h

theorem sizeBound_u32Json (n : UInt32) : sizeBound (u32Json n) ≤ 10 :=
  sizeBound_nat (by decide) (lt_trans n.toNat_lt (by decide))

theorem sizeBound_u64Json (n : UInt64) : sizeBound (u64Json n) ≤ 20 :=
  sizeBound_nat (by decide) (lt_trans n.toNat_lt (by decide))

/-- **A record's own bytes decode to it.** -/
theorem decodeAs_toVec {ofJson : Value → Option α} {v : Value} (h : depth v ≤ maxDepth) :
    decodeAs ofJson (toVec v) = ofJson v := by
  rw [decodeAs, fromSlice_toVec h]

end LumaOS.Json
