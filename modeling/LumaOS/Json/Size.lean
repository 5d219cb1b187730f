import LumaOS.Json
import Mathlib.Algebra.GroupWithZero.Nat

/-!
# A bound on the length of compact output

`sizeBound v` bounds the number of bytes `serde_json::to_vec` writes for `v` without writing them
(`length_toVec_le`): an escape takes at most six bytes for each byte of the text. The stores bound
the length of a record and never look at its text, so a concrete record is checked on the bound.
-/

namespace LumaOS.Json

open LumaOS.Text

/-- A bound on the bytes of a quoted text. -/
def quoteBound (s : String) : Nat := 2 + 6 * s.utf8ByteSize

mutual

/-- A bound on the bytes of a value. -/
def sizeBound : Value → Nat
  | .null => 4
  | .bool _ => 5
  | .number n => (toString n).utf8ByteSize
  | .string s => quoteBound s
  | .array items => 2 + sizeBounds items
  | .object fields => 2 + fieldBounds fields

def sizeBounds : List Value → Nat
  | [] => 0
  | v :: rest => sizeBound v + 1 + sizeBounds rest

def fieldBounds : List (String × Value) → Nat
  | [] => 0
  | (k, v) :: rest => quoteBound k + 1 + sizeBound v + 1 + fieldBounds rest

end

theorem utf8ByteSize_escape_le (c : Char) : (escape c).utf8ByteSize ≤ 6 * c.utf8Size := by
  have hpos := Char.utf8Size_pos c
  have hshort : ∀ s : String, s.utf8ByteSize ≤ 6 → s.utf8ByteSize ≤ 6 * c.utf8Size :=
    fun s hs => by omega
  unfold escape
  split_ifs
  · exact hshort _ (by decide)
  · exact hshort _ (by decide)
  · exact hshort _ (by decide)
  · exact hshort _ (by decide)
  · exact hshort _ (by decide)
  · exact hshort _ (by decide)
  · exact hshort _ (by decide)
  · have hhex : ∀ b : UInt8, (hex [0, b]).utf8ByteSize = 4 := by
      intro b
      rw [hex, utf8ByteSize_ofList_ascii]
      · rfl
      · intro d hd
        obtain ⟨n, hn, rfl⟩ := mem_hex_digits hd
        exact (hexDigit_ascii n hn).1
    refine hshort _ ?_
    rw [String.utf8ByteSize_append, hhex]
    decide
  · rw [Char.toString, String.utf8ByteSize_singleton]
    omega

theorem utf8ByteSize_quote_le (s : String) : (quote s).utf8ByteSize ≤ quoteBound s := by
  have hjoin : ∀ l : List Char, (String.join (l.map escape)).utf8ByteSize ≤
      6 * (String.ofList l).utf8ByteSize := by
    intro l
    induction l with
    | nil => exact Nat.zero_le _
    | cons c l ih =>
      have hc := utf8ByteSize_escape_le c
      rw [List.map_cons, String.join_cons, String.utf8ByteSize_append, String.ofList_cons,
        String.utf8ByteSize_append, String.utf8ByteSize_singleton]
      omega
  have := hjoin s.toList
  rw [String.ofList_toList] at this
  rw [quote, String.utf8ByteSize_append, String.utf8ByteSize_append, quoteBound]
  change 1 + _ + 1 ≤ _
  omega

theorem utf8ByteSize_intercalate_le (t : String) (ts : List String) :
    (",".intercalate (t :: ts)).utf8ByteSize ≤
      t.utf8ByteSize + 1 + (",".intercalate ts).utf8ByteSize := by
  cases ts with
  | nil => simp
  | cons u us =>
    rw [String.intercalate_cons_cons, String.utf8ByteSize_append, String.utf8ByteSize_append]
    exact Nat.le_refl _

mutual

theorem utf8ByteSize_text_le : ∀ v : Value, (text v).utf8ByteSize ≤ sizeBound v
  | .null => Nat.le_refl _
  | .bool true => by decide
  | .bool false => by decide
  | .number n => by
    rw [text, sizeBound]
  | .string s => by
    rw [text, sizeBound]
    exact utf8ByteSize_quote_le s
  | .array items => by
    have := utf8ByteSize_texts_le items
    rw [text, sizeBound, String.utf8ByteSize_append, String.utf8ByteSize_append]
    change 1 + _ + 1 ≤ _
    omega
  | .object fields => by
    have := utf8ByteSize_fieldTexts_le fields
    rw [text, sizeBound, String.utf8ByteSize_append, String.utf8ByteSize_append]
    change 1 + _ + 1 ≤ _
    omega

theorem utf8ByteSize_texts_le : ∀ items : List Value,
    (",".intercalate (texts items)).utf8ByteSize ≤ sizeBounds items
  | [] => Nat.le_refl _
  | v :: rest => by
    have hv := utf8ByteSize_text_le v
    have hrest := utf8ByteSize_texts_le rest
    have := utf8ByteSize_intercalate_le (text v) (texts rest)
    rw [texts, sizeBounds]
    omega

theorem utf8ByteSize_fieldTexts_le : ∀ fields : List (String × Value),
    (",".intercalate (fieldTexts fields)).utf8ByteSize ≤ fieldBounds fields
  | [] => Nat.le_refl _
  | (k, v) :: rest => by
    have hk := utf8ByteSize_quote_le k
    have hv := utf8ByteSize_text_le v
    have hrest := utf8ByteSize_fieldTexts_le rest
    have := utf8ByteSize_intercalate_le (quote k ++ ":" ++ text v) (fieldTexts rest)
    rw [String.utf8ByteSize_append, String.utf8ByteSize_append] at this
    rw [fieldTexts, fieldBounds]
    have hcolon : ":".utf8ByteSize = 1 := rfl
    omega

end

/-- **The length of `serde_json::to_vec`.** -/
theorem length_toVec_le (v : Value) : (toVec v).length ≤ sizeBound v :=
  utf8ByteSize_text_le v

/-! ## Sorted fields take as much room -/

theorem fieldBounds_eq_sum : ∀ fields : List (String × Value),
    fieldBounds fields = (fields.map fun f => quoteBound f.1 + 1 + sizeBound f.2 + 1).sum
  | [] => rfl
  | (k, v) :: rest => by
    rw [fieldBounds, fieldBounds_eq_sum rest, List.map_cons, List.sum_cons]

mutual

theorem sizeBound_sorted : ∀ v : Value, sizeBound (sorted v) = sizeBound v
  | .null => rfl
  | .bool _ => rfl
  | .number _ => rfl
  | .string _ => rfl
  | .array items => by rw [sorted, sizeBound, sizeBound, sizeBounds_sortedItems items]
  | .object fields => by
    have hperm := List.perm_insertionSort (fun a b : String × Value => a.1 ≤ b.1)
      (sortedFields fields)
    rw [sorted, sizeBound, sizeBound, fieldBounds_eq_sum, (hperm.map _).sum_nat,
      ← fieldBounds_eq_sum, fieldBounds_sortedFields fields]

theorem sizeBounds_sortedItems : ∀ items : List Value,
    sizeBounds (sortedItems items) = sizeBounds items
  | [] => rfl
  | v :: rest => by
    rw [sortedItems, sizeBounds, sizeBounds, sizeBound_sorted v, sizeBounds_sortedItems rest]

theorem fieldBounds_sortedFields : ∀ fields : List (String × Value),
    fieldBounds (sortedFields fields) = fieldBounds fields
  | [] => rfl
  | (k, v) :: rest => by
    rw [sortedFields, fieldBounds, fieldBounds, sizeBound_sorted v, fieldBounds_sortedFields rest]

end

end LumaOS.Json
