import LumaOS.Text
import Mathlib.Data.List.Sort

/-!
# `serde_json` values and compact output

`serde_json::Value`, `to_vec`, `to_value` and the accessors the repository uses (`value["key"]`,
`as_str`, `as_u64`). An object lists its fields in output order: declaration order for a derived
`Serialize`, key order for a `BTreeMap`. Numbers are integers; no modelled record holds a float.
-/

namespace LumaOS.Json

open LumaOS.Text

/-- `serde_json::Value`. -/
inductive Value where
  | null
  | bool (b : Bool)
  | number (n : Int)
  | string (s : String)
  | array (items : List Value)
  | object (fields : List (String × Value))

/-- The escapes of `serde_json`'s compact formatter; other characters are copied. -/
def escape (c : Char) : String :=
  if c = '"' then "\\\""
  else if c = '\\' then "\\\\"
  else if c.toNat = 8 then "\\b"
  else if c.toNat = 12 then "\\f"
  else if c = '\n' then "\\n"
  else if c = '\r' then "\\r"
  else if c = '\t' then "\\t"
  else if c.toNat < 32 then "\\u" ++ hex [0, UInt8.ofNat c.toNat]
  else c.toString

def quote (s : String) : String := "\"" ++ String.join (s.toList.map escape) ++ "\""

mutual

/-- The compact text of a value. -/
def text : Value → String
  | .null => "null"
  | .bool b => if b then "true" else "false"
  | .number n => toString n
  | .string s => quote s
  | .array items => "[" ++ ",".intercalate (texts items) ++ "]"
  | .object fields => "\x7b" ++ ",".intercalate (fieldTexts fields) ++ "\x7d"

def texts : List Value → List String
  | [] => []
  | v :: rest => text v :: texts rest

def fieldTexts : List (String × Value) → List String
  | [] => []
  | (k, v) :: rest => (quote k ++ ":" ++ text v) :: fieldTexts rest

end

/-- `serde_json::to_vec`. -/
def toVec (value : Value) : Bytes := (text value).toUTF8.data.toList

mutual

/-- `serde_json::to_value`: a `Value` object is a `BTreeMap`, so its fields come out in key
order. -/
def sorted : Value → Value
  | .array items => .array (sortedItems items)
  | .object fields => .object ((sortedFields fields).insertionSort fun a b => a.1 ≤ b.1)
  | v => v

def sortedItems : List Value → List Value
  | [] => []
  | v :: rest => sorted v :: sortedItems rest

def sortedFields : List (String × Value) → List (String × Value)
  | [] => []
  | (k, v) :: rest => (k, sorted v) :: sortedFields rest

end

/-- `value[key]`: `Null` when absent or not an object. -/
def Value.get (value : Value) (key : String) : Value :=
  match value with
  | .object fields => ((fields.find? fun f => f.1 == key).map Prod.snd).getD .null
  | _ => .null

/-- `Value::as_str`. -/
def Value.asStr : Value → Option String
  | .string s => some s
  | _ => none

/-- `Value::as_u64`. -/
def Value.asU64 : Value → Option UInt64
  | .number n => if 0 ≤ n ∧ n < 2 ^ 64 then some (UInt64.ofNat n.toNat) else none
  | _ => none

/-- `#[serde(with = "decimal")]`: a `u64` as a decimal string. -/
def decimal (n : Nat) : Value := .string (toString n)

/-- An absent `Option` is `null`. -/
def optional {α : Type} (toJson : α → Value) : Option α → Value
  | none => .null
  | some a => toJson a

/-- `#[serde(skip_serializing_if = "Option::is_none")]`. -/
def skipNone {α : Type} (key : String) (toJson : α → Value) : Option α → List (String × Value)
  | none => []
  | some a => [(key, toJson a)]

def u64Json (n : UInt64) : Value := .number n.toNat
def u32Json (n : UInt32) : Value := .number n.toNat

end LumaOS.Json
