import LumaOS.Json

/-!
# Python's `json.dumps`

`dumps` is `json.dumps(value, sort_keys=True, separators=(",", ":"), ensure_ascii=True)`, encoded.
`serde_json` escapes less and keeps the order of the keys. On a value whose texts are printable
ASCII and whose keys are in order (`Plain`) the two write the same bytes (`dumps_eq_toVec`).
-/

namespace LumaOS.Json

open LumaOS.Text

/-- `'\\u{0:04x}'`. -/
def codeUnit (n : Nat) : String := "\\u" ++ hex [UInt8.ofNat (n / 256), UInt8.ofNat (n % 256)]

/-- `py_encode_basestring_ascii` on one character. -/
def asciiEscape (c : Char) : String :=
  if c = '"' then "\\\""
  else if c = '\\' then "\\\\"
  else if c.toNat = 8 then "\\b"
  else if c.toNat = 12 then "\\f"
  else if c = '\n' then "\\n"
  else if c = '\r' then "\\r"
  else if c = '\t' then "\\t"
  else if 0x20 ≤ c.toNat ∧ c.toNat ≤ 0x7E then c.toString
  else if c.toNat < 0x10000 then codeUnit c.toNat
  else codeUnit (0xD800 + (c.toNat - 0x10000) / 0x400) ++
    codeUnit (0xDC00 + (c.toNat - 0x10000) % 0x400)

def asciiQuote (s : String) : String := "\"" ++ String.join (s.toList.map asciiEscape) ++ "\""

mutual

/-- The text of a value whose keys are in order. -/
def dumpText : Value → String
  | .null => "null"
  | .bool b => if b then "true" else "false"
  | .number n => toString n
  | .string s => asciiQuote s
  | .array items => "[" ++ ",".intercalate (dumpTexts items) ++ "]"
  | .object fields => "\x7b" ++ ",".intercalate (dumpFields fields) ++ "\x7d"

def dumpTexts : List Value → List String
  | [] => []
  | v :: rest => dumpText v :: dumpTexts rest

def dumpFields : List (String × Value) → List String
  | [] => []
  | (k, v) :: rest => (asciiQuote k ++ ":" ++ dumpText v) :: dumpFields rest

end

/-- `json.dumps(value, sort_keys=True, ...).encode("ascii")`. -/
def dumps (value : Value) : Bytes := (dumpText (sorted value)).toUTF8.data.toList

/-- A text of printable ASCII. -/
def IsAscii (s : String) : Prop := ∀ c ∈ s.toList, 0x20 ≤ c.toNat ∧ c.toNat ≤ 0x7E

instance decidableIsAscii (s : String) : Decidable (IsAscii s) :=
  inferInstanceAs (Decidable (∀ c ∈ s.toList, _))

mutual

/-- **Printable texts and keys in order**, at every depth. -/
def Plain : Value → Prop
  | .null | .bool _ | .number _ => True
  | .string s => IsAscii s
  | .array items => PlainItems items
  | .object fields => (fields.map Prod.fst).Pairwise (· ≤ ·) ∧ PlainFields fields

def PlainItems : List Value → Prop
  | [] => True
  | v :: rest => Plain v ∧ PlainItems rest

def PlainFields : List (String × Value) → Prop
  | [] => True
  | (k, v) :: rest => (IsAscii k ∧ Plain v) ∧ PlainFields rest

end

theorem plainItems_iff {items : List Value} : PlainItems items ↔ ∀ v ∈ items, Plain v := by
  induction items with
  | nil => simp [PlainItems]
  | cons v items ih => rw [PlainItems, ih, List.forall_mem_cons]

theorem plain_array {α : Type} {f : α → Value} {items : List α} (h : ∀ a ∈ items, Plain (f a)) :
    Plain (.array (items.map f)) := by
  rw [Plain, plainItems_iff]
  intro v hv
  obtain ⟨a, ha, rfl⟩ := List.mem_map.mp hv
  exact h a ha

theorem plain_object {fields : List (String × Value)}
    (hkeys : (fields.map Prod.fst).Pairwise (· ≤ ·) ∧ ∀ k ∈ fields.map Prod.fst, IsAscii k)
    (hvalues : PlainItems (fields.map Prod.snd)) : Plain (.object fields) := by
  refine ⟨hkeys.1, ?_⟩
  have hascii := hkeys.2
  clear hkeys
  induction fields with
  | nil => exact trivial
  | cons f fields ih =>
    obtain ⟨hk, hks⟩ := List.forall_mem_cons.mp hascii
    exact ⟨⟨hk, hvalues.1⟩, ih hvalues.2 hks⟩

theorem plain_optional {α : Type} {f : α → Value} {o : Option α} (h : ∀ a, o = some a → Plain (f a)) :
    Plain (optional f o) := by
  cases o with
  | none => exact trivial
  | some a => exact h a rfl

theorem asciiEscape_eq {c : Char} (h : 0x20 ≤ c.toNat ∧ c.toNat ≤ 0x7E) :
    asciiEscape c = escape c := by
  have hlow : ¬ c.toNat < 32 := Nat.not_lt.mpr h.1
  unfold asciiEscape escape
  rw [if_pos h, if_neg hlow]

theorem asciiQuote_eq {s : String} (h : IsAscii s) : asciiQuote s = quote s := by
  rw [asciiQuote, quote, List.map_congr_left fun c hc => asciiEscape_eq (h c hc)]

mutual

theorem dumpText_eq : ∀ v : Value, Plain v → dumpText v = text v
  | .null, _ => rfl
  | .bool _, _ => rfl
  | .number _, _ => rfl
  | .string s, h => by rw [dumpText, text, asciiQuote_eq h]
  | .array items, h => by rw [dumpText, text, dumpTexts_eq items h]
  | .object fields, h => by rw [dumpText, text, dumpFields_eq fields h.2]

theorem dumpTexts_eq : ∀ items : List Value, PlainItems items → dumpTexts items = texts items
  | [], _ => rfl
  | v :: rest, h => by rw [dumpTexts, texts, dumpText_eq v h.1, dumpTexts_eq rest h.2]

theorem dumpFields_eq : ∀ fields : List (String × Value), PlainFields fields →
    dumpFields fields = fieldTexts fields
  | [], _ => rfl
  | (k, v) :: rest, h => by
    rw [dumpFields, fieldTexts, dumpText_eq v h.1.2, asciiQuote_eq h.1.1, dumpFields_eq rest h.2]

end

mutual

/-- Sorting keys that are in order changes nothing. -/
theorem sorted_eq : ∀ v : Value, Plain v → sorted v = v
  | .null, _ => rfl
  | .bool _, _ => rfl
  | .number _, _ => rfl
  | .string _, _ => rfl
  | .array items, h => by rw [sorted, sortedItems_eq items h]
  | .object fields, h => by
    rw [sorted, sortedFields_eq fields h.2]
    congr 1
    exact (List.pairwise_map.mp h.1).insertionSort_eq

theorem sortedItems_eq : ∀ items : List Value, PlainItems items → sortedItems items = items
  | [], _ => rfl
  | v :: rest, h => by rw [sortedItems, sorted_eq v h.1, sortedItems_eq rest h.2]

theorem sortedFields_eq : ∀ fields : List (String × Value), PlainFields fields →
    sortedFields fields = fields
  | [], _ => rfl
  | (k, v) :: rest, h => by rw [sortedFields, sorted_eq v h.1.2, sortedFields_eq rest h.2]

end

/-- **On plain values Python and `serde_json` write the same bytes.** -/
theorem dumps_eq_toVec {v : Value} (h : Plain v) : dumps v = toVec v := by
  rw [dumps, sorted_eq v h, dumpText_eq v h, toVec]

end LumaOS.Json
