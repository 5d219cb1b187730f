import LumaOS.Governance.ReleaseTrust

/-!
# The frozen text formats of model distribution

Model of `model_trust.rs:30-111, 158-222, 223-287`: bounded ASCII metadata, canonical JSON, exact
UTC timestamps and base64. Each checker is a function of the text alone.

A canonical document is the key-sorted compact JSON of a value inside the closed domain: depth 16,
65536 nodes, printable ASCII and integers up to 2^53 - 1 (`canonical`).
-/

namespace LumaOS.Governance

open LumaOS.Base LumaOS.Text LumaOS.Json

/-- `SAFE`. -/
def safeInteger : Nat := 2 ^ 53 - 1

/-- The Unicode `White_Space` characters, which `str::trim` removes. -/
def whiteSpace (c : Char) : Bool :=
  let n := c.toNat
  (9 ≤ n && n ≤ 13) || n == 32 || n == 133 || n == 160 || n == 5760 || (8192 ≤ n && n ≤ 8202) ||
    n == 8232 || n == 8233 || n == 8239 || n == 8287 || n == 12288

/-- `text.trim() == text`. -/
def trimmed (text : String) : Bool :=
  !text.toList.head?.any whiteSpace && !text.toList.getLast?.any whiteSpace

/-- `(32..=126).contains(&b)`. -/
def printable (c : Char) : Bool := 32 ≤ c.toNat && c.toNat ≤ 126

/-- `model_trust::ascii`. -/
def modelAscii (maximum : Nat) (text : String) : Result Unit :=
  refuseIf (text.isEmpty || !trimmed text || text.utf8ByteSize > maximum ||
      !text.toList.all printable)
    "model metadata requires bounded trimmed printable ASCII"

/-- `model_trust::environment`. -/
def modelEnvironment (value : String) : Result Unit :=
  refuseIf (!knownEnvironment value) "model environment must be lab or production"

/-- `model_trust::positive`. -/
def modelPositive (value : UInt64) : Result Unit :=
  refuseIf (value == 0 || value.toNat > safeInteger)
    "model integer is outside the positive interoperable range"

/-- `model_trust::hash`. -/
def modelHash (value : String) : Result Unit :=
  refuseIf (!isHash value) "model metadata requires a lowercase SHA256 digest"

instance noPanic_modelAscii (maximum : Nat) (text : String) : NoPanic (modelAscii maximum text) :=
  noPanic_refuseIf _ _

instance noPanic_modelEnvironment (value : String) : NoPanic (modelEnvironment value) :=
  noPanic_refuseIf _ _

instance noPanic_modelPositive (value : UInt64) : NoPanic (modelPositive value) :=
  noPanic_refuseIf _ _

instance noPanic_modelHash (value : String) : NoPanic (modelHash value) := noPanic_refuseIf _ _

/-! ## Canonical JSON -/

/-- The check of one node, before its children; returns the node count. -/
def domainNode (depth nodes : Nat) : Result Nat := do
  refuseIf (depth > 16 || nodes + 1 > 65536) "model JSON exceeds structural bounds"
  pure (nodes + 1)

def outsideDomain : String :=
  "model JSON canonical domain excludes floats, unsafe integers and non-ASCII text"

mutual

/-- `canonical::domain`, threading the node count. -/
def domain (depth nodes : Nat) : Value → Result Nat
  | .null => domainNode depth nodes
  | .bool _ => domainNode depth nodes
  | .string s => do
    let nodes ← domainNode depth nodes
    refuseIf (!s.toList.all printable) outsideDomain
    pure nodes
  | .number n => do
    let nodes ← domainNode depth nodes
    refuseIf (n.natAbs > safeInteger) outsideDomain
    pure nodes
  | .array items => do
    let nodes ← domainNode depth nodes
    domainItems (depth + 1) nodes items
  | .object fields => do
    let nodes ← domainNode depth nodes
    domainFields (depth + 1) nodes fields

def domainItems (depth nodes : Nat) : List Value → Result Nat
  | [] => .ok nodes
  | v :: rest => do
    let nodes ← domain depth nodes v
    domainItems depth nodes rest

def domainFields (depth nodes : Nat) : List (String × Value) → Result Nat
  | [] => .ok nodes
  | (k, v) :: rest => do
    let nodes ← domainNode depth nodes
    refuseIf (!k.toList.all printable) outsideDomain
    let nodes ← domain depth nodes v
    domainFields depth nodes rest

end

instance noPanic_domainNode (depth nodes : Nat) : NoPanic (domainNode depth nodes) := by
  unfold domainNode
  infer_instance

mutual

theorem noPanic_domain (depth nodes : Nat) : ∀ v, NoPanic (domain depth nodes v)
  | .null => noPanic_domainNode depth nodes
  | .bool _ => noPanic_domainNode depth nodes
  | .string s => by
    unfold domain
    infer_instance
  | .number n => by
    unfold domain
    infer_instance
  | .array items => by
    unfold domain
    exact noPanic_bind inferInstance fun n _ => noPanic_domainItems (depth + 1) n items
  | .object fields => by
    unfold domain
    exact noPanic_bind inferInstance fun n _ => noPanic_domainFields (depth + 1) n fields

theorem noPanic_domainItems (depth nodes : Nat) : ∀ vs, NoPanic (domainItems depth nodes vs)
  | [] => noPanic_ok nodes
  | v :: rest => by
    unfold domainItems
    exact noPanic_bind (noPanic_domain depth nodes v) fun n _ => noPanic_domainItems depth n rest

theorem noPanic_domainFields (depth nodes : Nat) : ∀ fs, NoPanic (domainFields depth nodes fs)
  | [] => noPanic_ok nodes
  | (k, v) :: rest => by
    unfold domainFields
    refine noPanic_bind inferInstance fun n _ => noPanic_bind inferInstance fun _ _ => ?_
    exact noPanic_bind (noPanic_domain depth n v) fun n _ => noPanic_domainFields depth n rest

end

/-- `model_trust::canonical`. -/
def canonical (value : Value) : Result Bytes := do
  let value := sorted value
  let _ ← domain 1 0 value
  pure (toVec value)

instance noPanic_canonical (value : Value) : NoPanic (canonical value) := by
  unfold canonical
  exact noPanic_bind (noPanic_domain 1 0 _) fun _ _ => noPanic_pure _

/-- `model_trust::digest`. -/
def modelDigest (sha256 : Bytes → Vector UInt8 32) (value : Value) : Result String := do
  let bytes ← canonical value
  pure (hex (sha256 bytes).toList)

instance noPanic_modelDigest (sha256 : Bytes → Vector UInt8 32) (value : Value) :
    NoPanic (modelDigest sha256 value) := by
  unfold modelDigest
  infer_instance

/-- `model_trust::parse`: the only accepted bytes are the canonical ones of the value read. -/
def parseCanonical {α : Type} (fromSlice : Bytes → Except String α) (toJson : α → Value)
    (limit : Nat) (bytes : Bytes) : Result α := do
  refuseIf (bytes.isEmpty || bytes.length > limit) "model artifact exceeds its closed byte bound"
  let value ← ofForeign (fromSlice bytes)
  let again ← canonical (toJson value)
  refuseIf (again != bytes) "model artifact must have exact canonical ASCII bytes and unique fields"
  pure value

instance noPanic_parseCanonical {α : Type} (fromSlice : Bytes → Except String α)
    (toJson : α → Value) (limit : Nat) (bytes : Bytes) :
    NoPanic (parseCanonical fromSlice toJson limit bytes) := by
  unfold parseCanonical
  infer_instance

/-! ## UTC timestamps -/

/-- The digits `b[start..end]` as a number. -/
def timestampNumber (b : Bytes) (start finish : Nat) : Result Int := do
  let digits := (b.drop start).take (finish - start)
  refuseIf (!digits.all fun d => 48 ≤ d.toNat && d.toNat ≤ 57) "invalid UTC timestamp digits"
  pure (digits.foldl (fun n d => 10 * n + (d.toNat - 48)) 0 : Nat)

/-- The number of days of a month. -/
def monthDays (year month : Int) : Int :=
  let leap := year % 4 == 0 && (year % 100 != 0 || year % 400 == 0)
  if month == 1 || month == 3 || month == 5 || month == 7 || month == 8 || month == 10 ||
      month == 12 then 31
  else if month == 4 || month == 6 || month == 9 || month == 11 then 30
  else if month == 2 then (if leap then 29 else 28)
  else 0

/-- Days from 1970-01-01 of a Gregorian date. -/
def daysFromCivil (year month day : Int) : Int :=
  let y := if month ≤ 2 then year - 1 else year
  let era := y / 400
  let yoe := y - era * 400
  let m := month + (if month > 2 then -3 else 9)
  let doy := (153 * m + 2) / 5 + day - 1
  era * 146097 + yoe * 365 + yoe / 4 - yoe / 100 + doy - 719468

/-- `model_trust::timestamp`. -/
def timestamp (text : String) : Result Int := do
  let b := text.toUTF8.data.toList
  refuseIf (b.length != 20 || b.getD 4 0 != 45 || b.getD 7 0 != 45 || b.getD 10 0 != 84 ||
      b.getD 13 0 != 58 || b.getD 16 0 != 58 || b.getD 19 0 != 90)
    "model timestamps require exact second-precision UTC"
  let year ← timestampNumber b 0 4
  let month ← timestampNumber b 5 7
  let day ← timestampNumber b 8 10
  let hour ← timestampNumber b 11 13
  let minute ← timestampNumber b 14 16
  let second ← timestampNumber b 17 19
  refuseIf (year < 1 || day < 1 || day > monthDays year month || hour > 23 || minute > 59 ||
      second > 59)
    "invalid Gregorian UTC timestamp"
  pure ((daysFromCivil year month day * 86400 + hour * 3600 + minute * 60 + second) * 1000)

instance noPanic_timestampNumber (b : Bytes) (start finish : Nat) :
    NoPanic (timestampNumber b start finish) := by
  unfold timestampNumber
  infer_instance

instance noPanic_timestamp (text : String) : NoPanic (timestamp text) := by
  unfold timestamp
  infer_instance

/-- `model_trust::dates`. -/
def dates (start finish : String) : Result (Int × Int) := do
  let a ← timestamp start
  let b ← timestamp finish
  refuseIf (b ≤ a) "model lifecycle interval must be nonempty"
  pure (a, b)

instance noPanic_dates (start finish : String) : NoPanic (dates start finish) := by
  unfold dates
  infer_instance

/-! ## Base64 -/

/-- The alphabet. -/
def base64Table : List Char :=
  "ABCDEFGHIJKLMNOPQRSTUVWXYZabcdefghijklmnopqrstuvwxyz0123456789+/".toList

def base64Char (n : Nat) : Char := base64Table.getD (n % 64) '='

/-- `model_trust::base64`, chunk by chunk. -/
def base64Chars : Bytes → List Char
  | a :: b :: c :: rest =>
    let n := a.toNat * 65536 + b.toNat * 256 + c.toNat
    base64Char (n / 262144) :: base64Char (n / 4096) :: base64Char (n / 64) :: base64Char n ::
      base64Chars rest
  | [a, b] =>
    let n := a.toNat * 65536 + b.toNat * 256
    [base64Char (n / 262144), base64Char (n / 4096), base64Char (n / 64), '=']
  | [a] =>
    let n := a.toNat * 65536
    [base64Char (n / 262144), base64Char (n / 4096), '=', '=']
  | [] => []

def base64 (bytes : Bytes) : String := String.ofList (base64Chars bytes)

/-- The six bits of one input byte; padding counts as zero. -/
def base64Value (c : Char) : Result Nat :=
  if c.isUpper then .ok (c.toNat - 65)
  else if c.isLower then .ok (c.toNat - 97 + 26)
  else if c.isDigit then .ok (c.toNat - 48 + 52)
  else if c == '+' then .ok 62
  else if c == '/' then .ok 63
  else if c == '=' then .ok 0
  else refuse "invalid model base64"

instance noPanic_base64Value (c : Char) : NoPanic (base64Value c) := by
  unfold base64Value
  infer_instance

/-- The decoding loop over `chunks_exact(4)`. -/
def decode64Chunks : List Char → Result Bytes
  | a :: b :: c :: d :: rest => do
    let va ← base64Value a
    let vb ← base64Value b
    let vc ← base64Value c
    let vd ← base64Value d
    let n := ((va * 64 + vb) * 64 + vc) * 64 + vd
    let out := UInt8.ofNat (n / 65536) ::
      (if c != '=' then [UInt8.ofNat (n / 256)] else []) ++
      (if d != '=' then [UInt8.ofNat n] else [])
    let tail ← decode64Chunks rest
    pure (out ++ tail)
  | _ => .ok []

theorem noPanic_decode64Chunks : ∀ cs, NoPanic (decode64Chunks cs)
  | a :: b :: c :: d :: rest => by
    have := noPanic_decode64Chunks rest
    unfold decode64Chunks
    infer_instance
  | [] => noPanic_ok _
  | [_] => noPanic_ok _
  | [_, _] => noPanic_ok _
  | [_, _, _] => noPanic_ok _

/-- `model_trust::decode64::<N>`, over the bytes of the text. -/
def decode64 (n : Nat) (text : String) : Result Bytes := do
  refuseIf (text.utf8ByteSize != (n + 2) / 3 * 4)
    "model signature/public key has invalid base64 length"
  let out ← decode64Chunks (text.toUTF8.data.toList.map fun b => Char.ofNat b.toNat)
  refuseIf (out.length != n || base64 out != text) "model base64 must be canonical"
  pure out

instance noPanic_decode64 (n : Nat) (text : String) : NoPanic (decode64 n text) := by
  have := noPanic_decode64Chunks (text.toUTF8.data.toList.map fun b => Char.ofNat b.toNat)
  unfold decode64
  infer_instance

example : decode64 4 (base64 [77, 97, 110, 255]) = .ok [77, 97, 110, 255] := by decide

example : timestamp "2000-02-29T12:34:56Z" = .ok 951827696000 := by decide

end LumaOS.Governance
