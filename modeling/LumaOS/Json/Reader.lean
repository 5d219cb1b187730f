import LumaOS.Json.Injective

/-!
# Reading compact text back

`serde_json::from_slice::<Value>`, one byte at a time. A `State` is what the reader is in the middle
of: the open arrays and objects, innermost first, and the token at hand. A byte that cannot follow
is refused on the spot; input that ends where more is needed is `eof`, which is what
`Error::is_eof` tells apart from every other error.

Reading byte by byte makes the difference between the two a fact about prefixes: what the reader has
accepted so far it also accepts of every shorter input, so a cut text is never refused.

* `fromSlice_toVec`: a value's own bytes read back as the value.
* `fromSlice_cut`: a strict prefix of an object's bytes is `eof`.

Outside: `Value` holds integers, so a fraction or an exponent is refused, and so is an object with
more than 127 levels.
-/

namespace LumaOS.Json

open LumaOS.Text

/-! ## The reader -/

/-- An open array or object: what it has so far, and the key that a value is being read for. -/
inductive Frame where
  | items (before : List Value)
  | fields (before : List (String × Value)) (key : String)

/-- Inside an escape. `high` is the first half of a surrogate pair. -/
inductive Escape where
  | outside
  | slash (high : Option Nat)
  | hex (high : Option Nat) (left : Nat) (code : Nat)
  | low (high : Nat)
deriving DecidableEq

/-- The token at hand. -/
inductive Mode where
  /-- A value is due; right after `[` the array may also end. -/
  | value (mayEnd : Bool)
  /-- A key is due; right after the opening brace the object may also end. -/
  | key (mayEnd : Bool)
  | colon
  | word (rest : List Char) (v : Value)
  | number (negative : Bool) (magnitude : Option Nat)
  | string (isKey : Bool) (read : Bytes) (escape : Escape)
  | ended (v : Value)

structure State where
  stack : List Frame
  mode : Mode

/-- `Error::classify`, as far as the callers look: the input ended, or it cannot be continued. -/
inductive ReadError where
  | eof
  | malformed
deriving DecidableEq

def isBlank (c : Char) : Bool := c == ' ' || c == '\n' || c == '\t' || c == '\r'

/-- `remaining_depth`. -/
def maxDepth : Nat := 127

def State.push (stack : List Frame) (frame : Frame) (mode : Mode) : Option State :=
  if stack.length < maxDepth then some ⟨frame :: stack, mode⟩ else none

/-- The first byte of a value. -/
def State.begin (stack : List Frame) (mayEnd : Bool) (c : Char) : Option State :=
  if isBlank c then some ⟨stack, .value mayEnd⟩
  else if c == '"' then some ⟨stack, .string false [] .outside⟩
  else if c == '[' then State.push stack (.items []) (.value true)
  else if c == '\x7b' then State.push stack (.fields [] "") (.key true)
  else if c == 'n' then some ⟨stack, .word ['u', 'l', 'l'] .null⟩
  else if c == 't' then some ⟨stack, .word ['r', 'u', 'e'] (.bool true)⟩
  else if c == 'f' then some ⟨stack, .word ['a', 'l', 's', 'e'] (.bool false)⟩
  else if c == '-' then some ⟨stack, .number true none⟩
  else if c.isDigit then some ⟨stack, .number false (some (c.toNat - 48))⟩
  else match stack with
    | .items [] :: rest => if mayEnd && c == ']' then some ⟨rest, .ended (.array [])⟩ else none
    | _ => none

/-- The byte after a value. -/
def State.after (stack : List Frame) (v : Value) (c : Char) : Option State :=
  if isBlank c then some ⟨stack, .ended v⟩
  else match stack with
    | .items before :: rest =>
      if c == ',' then some ⟨.items (before ++ [v]) :: rest, .value false⟩
      else if c == ']' then some ⟨rest, .ended (.array (before ++ [v]))⟩
      else none
    | .fields before key :: rest =>
      if c == ',' then some ⟨.fields (before ++ [(key, v)]) "" :: rest, .key false⟩
      else if c == '\x7d' then some ⟨rest, .ended (.object (before ++ [(key, v)]))⟩
      else none
    | [] => none

/-- The byte where a key is due. -/
def State.name (stack : List Frame) (mayEnd : Bool) (c : Char) : Option State :=
  if isBlank c then some ⟨stack, .key mayEnd⟩
  else if c == '"' then some ⟨stack, .string true [] .outside⟩
  else if mayEnd && c == '\x7d' then some ⟨stack.tail, .ended (.object [])⟩
  else none

/-- A key was read: it names the value that comes next. -/
def State.named (stack : List Frame) (key : String) : Option State :=
  match stack with
  | .fields before _ :: rest => some ⟨.fields before key :: rest, .colon⟩
  | _ => none

/-- `str::from_utf8`. -/
def utf8Text (read : Bytes) : Option String :=
  read.toByteArray.utf8Decode?.map fun cs => String.ofList cs.toList

/-- The closing quote. -/
def State.close (stack : List Frame) (isKey : Bool) (read : Bytes) : Option State := do
  let s ← utf8Text read
  if isKey then State.named stack s else some ⟨stack, .ended (.string s)⟩

/-- The character of a single escape. -/
def shortEscape (c : Char) : Option Char :=
  if c == '"' || c == '\\' || c == '/' then some c
  else if c == 'b' then some (Char.ofNat 8)
  else if c == 'f' then some (Char.ofNat 12)
  else if c == 'n' then some '\n'
  else if c == 'r' then some '\r'
  else if c == 't' then some '\t'
  else none

/-- The value of a digit of `\u`. -/
def hexCode (c : Char) : Option Nat :=
  if asciiHexdigit c then some (hexValue c.toLower) else none

/-- Four digits of `\u` were read. -/
def escaped (high : Option Nat) (code : Nat) : Option (Bytes × Escape) :=
  match high with
  | none =>
    if 0xD800 ≤ code ∧ code < 0xDC00 then some ([], .low code)
    else if 0xDC00 ≤ code ∧ code < 0xE000 then none
    else some (String.utf8EncodeChar (Char.ofNat code), .outside)
  | some high =>
    if 0xDC00 ≤ code ∧ code < 0xE000 then
      some (String.utf8EncodeChar
        (Char.ofNat (0x10000 + (high - 0xD800) * 0x400 + (code - 0xDC00))), .outside)
    else none

/-- A byte inside a string. -/
def State.inString (stack : List Frame) (isKey : Bool) (read : Bytes) (escape : Escape)
    (b : UInt8) : Option State :=
  let c := Char.ofNat b.toNat
  match escape with
  | .outside =>
    if c == '"' then State.close stack isKey read
    else if c == '\\' then some ⟨stack, .string isKey read (.slash none)⟩
    else if b < 32 then none
    else some ⟨stack, .string isKey (read ++ [b]) .outside⟩
  | .slash high =>
    if c == 'u' then some ⟨stack, .string isKey read (.hex high 3 0)⟩
    else if high.isSome then none
    else (shortEscape c).map fun d =>
      ⟨stack, .string isKey (read ++ String.utf8EncodeChar d) .outside⟩
  | .low high => if c == '\\' then some ⟨stack, .string isKey read (.slash (some high))⟩ else none
  | .hex high (left + 1) code =>
    (hexCode c).map fun d => ⟨stack, .string isKey read (.hex high left (16 * code + d))⟩
  | .hex high 0 code => do
    let d ← hexCode c
    let (more, escape) ← escaped high (16 * code + d)
    some ⟨stack, .string isKey (read ++ more) escape⟩

/-- A number with its sign. -/
def signed (negative : Bool) (n : Nat) : Value := .number (if negative then -n else n)

/-- One byte. -/
def State.step (s : State) (b : UInt8) : Option State :=
  let c := Char.ofNat b.toNat
  match s.mode with
  | .value mayEnd => State.begin s.stack mayEnd c
  | .key mayEnd => State.name s.stack mayEnd c
  | .colon =>
    if isBlank c then some s else if c == ':' then some ⟨s.stack, .value false⟩ else none
  | .word [] v => State.after s.stack v c
  | .word [last] v => if c == last then some ⟨s.stack, .ended v⟩ else none
  | .word (next :: rest) v => if c == next then some ⟨s.stack, .word rest v⟩ else none
  | .number negative none =>
    if c.isDigit then some ⟨s.stack, .number negative (some (c.toNat - 48))⟩ else none
  | .number negative (some n) =>
    if c.isDigit then
      -- no digit follows a leading zero
      if n = 0 then none else some ⟨s.stack, .number negative (some (10 * n + (c.toNat - 48)))⟩
    else State.after s.stack (signed negative n) c
  | .string isKey read escape => State.inString s.stack isKey read escape b
  | .ended v => State.after s.stack v c

def State.run (s : State) (bytes : Bytes) : Option State := bytes.foldlM State.step s

/-- The end of the input. -/
def State.finish (s : State) : Except ReadError Value :=
  match s.stack, s.mode with
  | [], .ended v => .ok v
  | [], .number negative (some n) => .ok (signed negative n)
  | _, _ => .error .eof

def State.start : State := ⟨[], .value false⟩

/-- `serde_json::from_slice::<Value>`. -/
def fromSlice (bytes : Bytes) : Except ReadError Value :=
  match State.start.run bytes with
  | none => .error .malformed
  | some s => s.finish

/-! ## Bytes of characters -/

/-- The UTF-8 of a list of characters. -/
def bytesOf (cs : List Char) : Bytes := cs.flatMap String.utf8EncodeChar

theorem bytesOf_append (cs ds : List Char) : bytesOf (cs ++ ds) = bytesOf cs ++ bytesOf ds := by
  simp [bytesOf]

theorem utf8EncodeChar_ascii {c : Char} (h : c.toNat < 128) :
    String.utf8EncodeChar c = [UInt8.ofNat c.toNat] := by
  have hv : c.val.toNat ≤ 127 := Nat.le_of_lt_succ h
  simp only [String.utf8EncodeChar, if_pos hv]
  rfl

theorem utf8EncodeChar_high {c : Char} (h : 128 ≤ c.toNat) :
    ∀ b ∈ String.utf8EncodeChar c, 128 ≤ b.toNat := by
  have hv : ¬ c.val.toNat ≤ 127 := Nat.not_le.mpr h
  intro b hb
  simp only [String.utf8EncodeChar, if_neg hv] at hb
  split at hb
  · simp only [List.mem_cons, List.not_mem_nil, or_false] at hb
    rcases hb with rfl | rfl <;> simp only [UInt8.toNat_ofNat'] <;> omega
  · split at hb
    · simp only [List.mem_cons, List.not_mem_nil, or_false] at hb
      rcases hb with rfl | rfl | rfl <;> simp only [UInt8.toNat_ofNat'] <;> omega
    · simp only [List.mem_cons, List.not_mem_nil, or_false] at hb
      rcases hb with rfl | rfl | rfl | rfl <;> simp only [UInt8.toNat_ofNat'] <;> omega

theorem bytesOf_cons {c : Char} (h : c.toNat < 128) (cs : List Char) :
    bytesOf (c :: cs) = UInt8.ofNat c.toNat :: bytesOf cs := by
  rw [bytesOf, List.flatMap_cons, utf8EncodeChar_ascii h]
  rfl

/-- The character of an ASCII byte. -/
theorem char_ofNat_byte {c : Char} (h : c.toNat < 128) :
    Char.ofNat (UInt8.ofNat c.toNat).toNat = c := by
  rw [UInt8.toNat_ofNat', Nat.mod_eq_of_lt (by omega), Char.ofNat_toNat]

theorem toNat_ofNat {n : Nat} (h : n < 0xD800) : (Char.ofNat n).toNat = n := by
  rw [Char.ofNat, dif_pos (Or.inl h)]
  rfl

theorem toVec_eq_bytesOf (v : Value) : toVec v = bytesOf (text v).toList := by
  rw [toVec, bytesOf]
  have h : (text v).toUTF8 = ((text v).toList.flatMap String.utf8EncodeChar).toByteArray :=
    String.utf8Encode_toList.symm
  rw [h, List.toList_data_toByteArray]

theorem utf8Text_bytesOf (cs : List Char) : utf8Text (bytesOf cs) = some (String.ofList cs) := by
  have h : (bytesOf cs).toByteArray.utf8Decode? = some cs.toArray := List.utf8Decode?_utf8Encode
  rw [utf8Text, h, Option.map_some]

theorem bytesOf_inj {cs ds : List Char} (h : bytesOf cs = bytesOf ds) : cs = ds := by
  have hread := utf8Text_bytesOf cs
  rw [h, utf8Text_bytesOf, Option.some.injEq] at hread
  exact (String.ofList_injective hread).symm

namespace State

theorem run_append (s : State) (as bs : Bytes) :
    s.run (as ++ bs) = (s.run as).bind fun t => t.run bs := by
  rw [run, List.foldlM_append]
  rfl

theorem run_cons (s : State) (b : UInt8) (bs : Bytes) :
    s.run (b :: bs) = (s.step b).bind fun t => t.run bs := rfl

theorem run_nil (s : State) : s.run [] = some s := rfl

/-- One ASCII character. -/
theorem run_ascii {c : Char} (h : c.toNat < 128) (s : State) (cs : List Char) :
    s.run (bytesOf (c :: cs)) =
      (s.step (UInt8.ofNat c.toNat)).bind fun t => t.run (bytesOf cs) := by
  rw [bytesOf_cons h, run_cons]

/-! ## Strings -/

section Strings

variable (stack : List Frame) (isKey : Bool) (read : Bytes)

/-- Bytes that are none of the quote, the backslash and the control characters are copied. -/
theorem run_copied : ∀ (bs read : Bytes),
    (∀ b ∈ bs, 32 ≤ b ∧ Char.ofNat b.toNat ≠ '"' ∧ Char.ofNat b.toNat ≠ '\\') →
    run ⟨stack, .string isKey read .outside⟩ bs =
      some ⟨stack, .string isKey (read ++ bs) .outside⟩
  | [], read, _ => by rw [run_nil, List.append_nil]
  | b :: bs, read, h => by
    obtain ⟨hspace, hquote, hslash⟩ := h b List.mem_cons_self
    have hstep : step ⟨stack, .string isKey read .outside⟩ b =
        some ⟨stack, .string isKey (read ++ [b]) .outside⟩ := by
      simp only [step, inString, beq_iff_eq, if_neg hquote, if_neg hslash,
        if_neg (UInt8.not_lt.mpr hspace)]
    rw [run_cons, hstep, Option.bind_some,
      run_copied bs _ fun b hb => h b (List.mem_cons_of_mem _ hb), List.append_assoc]
    rfl

theorem run_short {c d : Char} (hc : c.toNat < 128) (hu : c ≠ 'u') (hd : shortEscape c = some d) :
    run ⟨stack, .string isKey read .outside⟩ (bytesOf ['\\', c]) =
      some ⟨stack, .string isKey (read ++ String.utf8EncodeChar d) .outside⟩ := by
  rw [run_ascii (by decide)]
  have hslash : step ⟨stack, .string isKey read .outside⟩ (UInt8.ofNat '\\'.toNat) =
      some ⟨stack, .string isKey read (.slash none)⟩ := rfl
  rw [hslash, Option.bind_some, run_ascii hc]
  have hstep : step ⟨stack, .string isKey read (.slash none)⟩ (UInt8.ofNat c.toNat) =
      some ⟨stack, .string isKey (read ++ String.utf8EncodeChar d) .outside⟩ := by
    simp only [step, inString, char_ofNat_byte hc, beq_iff_eq, if_neg hu, Option.isSome_none,
      Bool.false_eq_true, if_false, hd, Option.map_some]
  rw [hstep]
  rfl

theorem hexCode_hexDigit : ∀ n < 16, (hexDigit n).toNat < 128 ∧ hexCode (hexDigit n) = some n := by
  decide

theorem run_hex {n : Nat} (hn : n < 16) (left code : Nat) (cs : List Char) :
    run ⟨stack, .string isKey read (.hex none (left + 1) code)⟩ (bytesOf (hexDigit n :: cs)) =
      run ⟨stack, .string isKey read (.hex none left (16 * code + n))⟩ (bytesOf cs) := by
  obtain ⟨hascii, hcode⟩ := hexCode_hexDigit n hn
  rw [run_ascii hascii]
  have hstep : step ⟨stack, .string isKey read (.hex none (left + 1) code)⟩
      (UInt8.ofNat (hexDigit n).toNat) =
      some ⟨stack, .string isKey read (.hex none left (16 * code + n))⟩ := by
    simp only [step, inString, char_ofNat_byte hascii, hcode, Option.map_some]
  rw [hstep, Option.bind_some]

theorem run_lastHex {n : Nat} (hn : n < 16) {code : Nat} (hcode : 16 * code + n < 32) :
    run ⟨stack, .string isKey read (.hex none 0 code)⟩ (bytesOf [hexDigit n]) =
      some ⟨stack, .string isKey
        (read ++ String.utf8EncodeChar (Char.ofNat (16 * code + n))) .outside⟩ := by
  obtain ⟨hascii, hdigit⟩ := hexCode_hexDigit n hn
  rw [run_ascii hascii]
  have hescaped : escaped none (16 * code + n) =
      some (String.utf8EncodeChar (Char.ofNat (16 * code + n)), .outside) := by
    rw [escaped, if_neg (by omega), if_neg (by omega)]
  simp only [step, inString, char_ofNat_byte hascii, hdigit, hescaped, Option.bind_some,
    Option.bind_eq_bind]
  rfl

/-- A control character without an escape of its own. -/
theorem run_control {c : Char} (h : c.toNat < 32) :
    run ⟨stack, .string isKey read .outside⟩
        (bytesOf ("\\u" ++ hex [0, UInt8.ofNat c.toNat]).toList) =
      some ⟨stack, .string isKey (read ++ String.utf8EncodeChar c) .outside⟩ := by
  have hbyte : (UInt8.ofNat c.toNat).toNat = c.toNat := by
    rw [UInt8.toNat_ofNat']
    omega
  have htext : ("\\u" ++ hex [0, UInt8.ofNat c.toNat]).toList =
      ['\\', 'u', hexDigit 0, hexDigit 0, hexDigit (c.toNat / 16), hexDigit (c.toNat % 16)] := by
    simp only [hex, String.toList_append, String.toList_ofList, List.flatMap_cons,
      List.flatMap_nil, hbyte]
    rfl
  have hstart : run ⟨stack, .string isKey read .outside⟩ (bytesOf ("\\u" ++
      hex [0, UInt8.ofNat c.toNat]).toList) =
      run ⟨stack, .string isKey read (.hex none 3 0)⟩ (bytesOf [hexDigit 0, hexDigit 0,
        hexDigit (c.toNat / 16), hexDigit (c.toNat % 16)]) := by
    rw [htext, run_ascii (by decide), run_ascii (by decide)]
    rfl
  rw [hstart, run_hex _ _ _ (by omega), run_hex _ _ _ (by omega), run_hex _ _ _ (by omega),
    run_lastHex _ _ _ (by omega) (by omega)]
  have hvalue : 16 * (16 * (16 * (16 * 0 + 0) + 0) + c.toNat / 16) + c.toNat % 16 = c.toNat := by
    omega
  rw [hvalue, Char.ofNat_toNat]

theorem run_escape (c : Char) :
    run ⟨stack, .string isKey read .outside⟩ (bytesOf (escape c).toList) =
      some ⟨stack, .string isKey (read ++ String.utf8EncodeChar c) .outside⟩ := by
  unfold escape
  split
  · subst_vars
    exact run_short stack isKey read (by decide) (by decide) rfl
  split
  · subst_vars
    exact run_short stack isKey read (by decide) (by decide) rfl
  split
  · rename_i h
    rw [← Char.ofNat_toNat c, h]
    exact run_short stack isKey read (by decide) (by decide) rfl
  split
  · rename_i h
    rw [← Char.ofNat_toNat c, h]
    exact run_short stack isKey read (by decide) (by decide) rfl
  split
  · subst_vars
    exact run_short stack isKey read (by decide) (by decide) rfl
  split
  · subst_vars
    exact run_short stack isKey read (by decide) (by decide) rfl
  split
  · subst_vars
    exact run_short stack isKey read (by decide) (by decide) rfl
  split
  · rename_i h
    exact run_control stack isKey read h
  · rename_i hquote hslash _ _ _ _ _ hcontrol
    have hbytes : bytesOf c.toString.toList = String.utf8EncodeChar c := by
      rw [Char.toString, String.toList_singleton, bytesOf, List.flatMap_singleton]
    rw [hbytes]
    refine run_copied stack isKey _ read fun b hb => ?_
    rcases Nat.lt_or_ge c.toNat 128 with hascii | hhigh
    · rw [utf8EncodeChar_ascii hascii, List.mem_singleton] at hb
      subst hb
      refine ⟨?_, by rwa [char_ofNat_byte hascii], by rwa [char_ofNat_byte hascii]⟩
      rw [UInt8.le_iff_toNat_le, UInt8.toNat_ofNat', Nat.mod_eq_of_lt (by omega)]
      exact Nat.not_lt.mp hcontrol
    · have hb := utf8EncodeChar_high hhigh b hb
      have hnat : (Char.ofNat b.toNat).toNat = b.toNat := by
        have := b.toNat_lt
        exact toNat_ofNat (by omega)
      refine ⟨by rw [UInt8.le_iff_toNat_le]; exact Nat.le_trans (by decide) hb, ?_, ?_⟩
      · intro h
        rw [h] at hnat
        have : '"'.toNat = 34 := rfl
        omega
      · intro h
        rw [h] at hnat
        have : '\\'.toNat = 92 := rfl
        omega

theorem run_escapes : ∀ (cs : List Char) (read : Bytes),
    run ⟨stack, .string isKey read .outside⟩ (bytesOf (cs.flatMap fun c => (escape c).toList)) =
      some ⟨stack, .string isKey (read ++ bytesOf cs) .outside⟩
  | [], read => by
    rw [List.flatMap_nil, bytesOf, List.flatMap_nil, run_nil, List.append_nil]
  | c :: cs, read => by
    rw [List.flatMap_cons, bytesOf_append, run_append, run_escape, Option.bind_some,
      run_escapes cs, List.append_assoc]
    rfl

/-- From inside the opening quote to the closing one. -/
theorem run_quoted (s : String) :
    run ⟨stack, .string isKey [] .outside⟩
        (bytesOf ((s.toList.flatMap fun c => (escape c).toList) ++ ['"'])) =
      if isKey then named stack s else some ⟨stack, .ended (.string s)⟩ := by
  rw [bytesOf_append, run_append, run_escapes, Option.bind_some, run_ascii (by decide)]
  have hstep : step ⟨stack, .string isKey ([] ++ bytesOf s.toList) .outside⟩
      (UInt8.ofNat '"'.toNat) = close stack isKey (bytesOf s.toList) := rfl
  have hclose : close stack isKey (bytesOf s.toList) =
      if isKey then named stack s else some ⟨stack, .ended (.string s)⟩ := by
    simp [close, utf8Text_bytesOf]
  rw [hstep, hclose]
  exact Option.bind_fun_some _

end Strings

/-! ## Numbers -/

theorem digitChar_read : ∀ n < 10, (Nat.digitChar n).toNat < 128 ∧
    (Nat.digitChar n).isDigit = true ∧ (Nat.digitChar n).toNat - 48 = n := by decide

theorem run_digits (stack : List Frame) (negative : Bool) (n : Nat) :
    run ⟨stack, .number negative none⟩ (bytesOf (Nat.toDigits 10 n)) =
      some ⟨stack, .number negative (some n)⟩ := by
  induction n using Nat.strongRecOn with
  | ind n ih =>
    by_cases hn : n < 10
    · obtain ⟨hascii, hdigit, hvalue⟩ := digitChar_read n hn
      rw [Nat.toDigits_of_lt_base hn, run_ascii hascii]
      simp only [step, char_ofNat_byte hascii, hdigit, if_true, hvalue, Option.bind_some]
      rfl
    · obtain ⟨hascii, hdigit, hvalue⟩ := digitChar_read (n % 10) (by omega)
      rw [Nat.toDigits_of_base_le (by decide) (by omega), bytesOf_append, run_append,
        ih (n / 10) (by omega), Option.bind_some, run_ascii hascii]
      have hlead : n / 10 ≠ 0 := by omega
      have hsum : 10 * (n / 10) + n % 10 = n := by omega
      simp only [step, char_ofNat_byte hascii, hdigit, if_true, hvalue, if_neg hlead, hsum,
        Option.bind_some]
      rfl

/-- A value starts with a digit as a number does. -/
theorem step_digit {c : Char} (hascii : c.toNat < 128) (hdigit : c.isDigit = true)
    (stack : List Frame) (mayEnd : Bool) :
    step ⟨stack, .value mayEnd⟩ (UInt8.ofNat c.toNat) =
      step ⟨stack, .number false none⟩ (UInt8.ofNat c.toNat) := by
  have hnot : ∀ d : Char, d.isDigit = false → (c == d) = false := by
    intro d hd
    rw [beq_eq_false_iff_ne]
    rintro rfl
    rw [hdigit] at hd
    cases hd
  have hblank : isBlank c = false := by
    simp only [isBlank, hnot ' ' rfl, hnot '\n' rfl, hnot '\t' rfl, hnot '\r' rfl, Bool.or_self]
  simp only [step, begin, char_ofNat_byte hascii, hblank, hnot '"' rfl, hnot '[' rfl,
    hnot '\x7b' rfl, hnot 'n' rfl, hnot 't' rfl, hnot 'f' rfl, hnot '-' rfl, hdigit,
    Bool.false_eq_true, if_false, if_true]

/-- A value was read: only a number may still go on. -/
def Holds (s : State) (stack : List Frame) (v : Value) : Prop :=
  s = ⟨stack, .ended v⟩ ∨
    ∃ negative n, s = ⟨stack, .number negative (some n)⟩ ∧ v = signed negative n

theorem Holds.step {s : State} {stack : List Frame} {v : Value} (h : Holds s stack v) {c : Char}
    (hascii : c.toNat < 128) (hc : c.isDigit = false) :
    s.step (UInt8.ofNat c.toNat) = after stack v c := by
  rcases h with rfl | ⟨negative, n, rfl, rfl⟩
  · simp only [State.step, char_ofNat_byte hascii]
  · simp only [State.step, char_ofNat_byte hascii, hc, Bool.false_eq_true, if_false]

theorem run_number (stack : List Frame) (mayEnd : Bool) (n : Int) :
    ∃ s, run ⟨stack, .value mayEnd⟩ (bytesOf (toString n).toList) = some s ∧
      Holds s stack (.number n) := by
  rw [toList_int]
  split
  · rename_i hn
    refine ⟨⟨stack, .number false (some n.toNat)⟩, ?_, .inr ⟨false, n.toNat, rfl, ?_⟩⟩
    · rw [← run_digits stack false n.toNat]
      cases hd : Nat.toDigits 10 n.toNat with
      | nil => exact absurd hd Nat.toDigits_ne_nil
      | cons c cs =>
        have hdigit : c.isDigit = true :=
          Nat.isDigit_of_mem_toDigits (by decide) (by decide) (hd ▸ List.mem_cons_self)
        have hascii : c.toNat < 128 := by
          have := (Char.isDigit_iff_toNat).mp hdigit
          have : '9'.toNat = 57 := rfl
          omega
        rw [run_ascii hascii, run_ascii hascii, step_digit hascii hdigit]
    · have : (n.toNat : Int) = n := by omega
      simp only [signed, Bool.false_eq_true, if_false, this]
  · refine ⟨⟨stack, .number true (some (-n).toNat)⟩, ?_, .inr ⟨true, (-n).toNat, rfl, ?_⟩⟩
    · rw [run_ascii (by decide), ← run_digits stack true (-n).toNat]
      rfl
    · have : -((-n).toNat : Int) = n := by omega
      simp only [signed, if_true, this]

end State

/-! ## Values -/

mutual

/-- How many arrays and objects are open at once. -/
def depth : Value → Nat
  | .array items => 1 + depths items
  | .object fields => 1 + fieldDepths fields
  | _ => 0

def depths : List Value → Nat
  | [] => 0
  | v :: rest => max (depth v) (depths rest)

def fieldDepths : List (String × Value) → Nat
  | [] => 0
  | (_, v) :: rest => max (depth v) (fieldDepths rest)

end

namespace State

theorem toList_items (t : String) (ts : List String) (close : Char) :
    (",".intercalate (t :: ts)).toList ++ [close] = t.toList ++ (more ts ++ [close]) := by
  rw [toList_intercalate_cons, List.append_assoc]

theorem more_cons (t : String) (ts : List String) (close : Char) :
    more (t :: ts) ++ [close] = ',' :: (t.toList ++ (more ts ++ [close])) := by
  rw [more, List.flatMap_cons, List.cons_append, List.cons_append, List.append_assoc]
  rfl

/-- A key and its colon. -/
theorem run_key (k : String) (v : Value) (stack : List Frame) (before : List (String × Value))
    (mayEnd : Bool) (rest : List Char) :
    run ⟨.fields before "" :: stack, .key mayEnd⟩
        (bytesOf ((quote k ++ ":" ++ text v).toList ++ rest)) =
      run ⟨.fields before k :: stack, .value false⟩ (bytesOf ((text v).toList ++ rest)) := by
  have hquote : step ⟨.fields before "" :: stack, .key mayEnd⟩ (UInt8.ofNat '"'.toNat) =
      some ⟨.fields before "" :: stack, .string true [] .outside⟩ := rfl
  have hnamed : (if true then named (.fields before "" :: stack) k
      else some ⟨.fields before "" :: stack, .ended (.string k)⟩) =
      some ⟨.fields before k :: stack, .colon⟩ := rfl
  have hcolon : step ⟨.fields before k :: stack, .colon⟩ (UInt8.ofNat ':'.toNat) =
      some ⟨.fields before k :: stack, .value false⟩ := rfl
  rw [toList_field, toList_quote, List.cons_append, run_ascii (by decide), hquote,
    Option.bind_some, bytesOf_append, run_append, run_quoted, hnamed, Option.bind_some,
    run_ascii (by decide), hcolon, Option.bind_some]

mutual

theorem run_text : ∀ (v : Value) (stack : List Frame) (mayEnd : Bool),
    stack.length + depth v ≤ maxDepth →
    ∃ s, run ⟨stack, .value mayEnd⟩ (bytesOf (text v).toList) = some s ∧ Holds s stack v
  | .null, stack, _, _ => ⟨_, rfl, .inl rfl⟩
  | .bool true, stack, _, _ => ⟨_, rfl, .inl rfl⟩
  | .bool false, stack, _, _ => ⟨_, rfl, .inl rfl⟩
  | .number n, stack, mayEnd, _ => run_number stack mayEnd n
  | .string a, stack, mayEnd, _ => by
    refine ⟨⟨stack, .ended (.string a)⟩, ?_, .inl rfl⟩
    rw [text, toList_quote, run_ascii (by decide)]
    exact run_quoted stack false a
  | .array items, stack, mayEnd, h => by
    rw [depth] at h
    have hopen : step ⟨stack, .value mayEnd⟩ (UInt8.ofNat '['.toNat) =
        some ⟨.items [] :: stack, .value true⟩ := by
      have : push stack (.items []) (.value true) = some ⟨.items [] :: stack, .value true⟩ :=
        if_pos (by omega)
      exact this
    refine ⟨⟨stack, .ended (.array items)⟩, ?_, .inl rfl⟩
    rw [← List.append_nil (text (.array items)).toList, toList_array, run_ascii (by decide), hopen,
      Option.bind_some]
    cases items with
    | nil => rfl
    | cons v vs =>
      rw [depths] at h
      have hlength : (Frame.items [] :: stack).length + depth v ≤ maxDepth := by
        rw [List.length_cons]
        omega
      obtain ⟨s, hs, hholds⟩ := run_text v (.items [] :: stack) true hlength
      rw [texts, toList_items, bytesOf_append, run_append, hs, Option.bind_some]
      exact run_items vs v s stack [] (by omega) hholds
  | .object fields, stack, mayEnd, h => by
    rw [depth] at h
    have hopen : step ⟨stack, .value mayEnd⟩ (UInt8.ofNat '\x7b'.toNat) =
        some ⟨.fields [] "" :: stack, .key true⟩ := by
      have : push stack (.fields [] "") (.key true) = some ⟨.fields [] "" :: stack, .key true⟩ :=
        if_pos (by omega)
      exact this
    refine ⟨⟨stack, .ended (.object fields)⟩, ?_, .inl rfl⟩
    rw [← List.append_nil (text (.object fields)).toList, toList_object, run_ascii (by decide),
      hopen, Option.bind_some]
    cases fields with
    | nil => rfl
    | cons f fs =>
      obtain ⟨k, v⟩ := f
      rw [fieldDepths] at h
      have hlength : (Frame.fields [] k :: stack).length + depth v ≤ maxDepth := by
        rw [List.length_cons]
        omega
      obtain ⟨s, hs, hholds⟩ := run_text v (.fields [] k :: stack) false hlength
      rw [fieldTexts, toList_items, run_key, bytesOf_append, run_append, hs, Option.bind_some]
      exact run_fields fs v k s stack [] (by omega) hholds

theorem run_items : ∀ (vs : List Value) (v : Value) (s : State) (stack : List Frame)
    (before : List Value), stack.length + (1 + depths vs) ≤ maxDepth →
    Holds s (.items before :: stack) v →
    run s (bytesOf (more (texts vs) ++ [']'])) =
      some ⟨stack, .ended (.array (before ++ v :: vs))⟩
  | [], v, s, stack, before, _, hs => by
    rw [texts, more, List.flatMap_nil, List.nil_append, run_ascii (by decide),
      hs.step (by decide) rfl]
    rfl
  | w :: vs, v, s, stack, before, h, hs => by
    rw [depths] at h
    have hlength : (Frame.items (before ++ [v]) :: stack).length + depth w ≤ maxDepth := by
      rw [List.length_cons]
      omega
    obtain ⟨s', hs', hholds⟩ := run_text w (.items (before ++ [v]) :: stack) false hlength
    have hcomma : after (.items before :: stack) v ',' =
        some ⟨.items (before ++ [v]) :: stack, .value false⟩ := rfl
    rw [texts, more_cons, run_ascii (by decide), hs.step (by decide) rfl, hcomma, Option.bind_some,
      bytesOf_append, run_append, hs', Option.bind_some]
    have hrest := run_items vs w s' stack (before ++ [v]) (by omega) hholds
    rw [List.append_assoc] at hrest
    exact hrest

theorem run_fields : ∀ (fs : List (String × Value)) (v : Value) (k : String) (s : State)
    (stack : List Frame) (before : List (String × Value)),
    stack.length + (1 + fieldDepths fs) ≤ maxDepth → Holds s (.fields before k :: stack) v →
    run s (bytesOf (more (fieldTexts fs) ++ ['\x7d'])) =
      some ⟨stack, .ended (.object (before ++ (k, v) :: fs))⟩
  | [], v, k, s, stack, before, _, hs => by
    rw [fieldTexts, more, List.flatMap_nil, List.nil_append, run_ascii (by decide),
      hs.step (by decide) rfl]
    rfl
  | (k', w) :: fs, v, k, s, stack, before, h, hs => by
    rw [fieldDepths] at h
    have hcomma : after (.fields before k :: stack) v ',' =
        some ⟨.fields (before ++ [(k, v)]) "" :: stack, .key false⟩ := rfl
    have hlength : (Frame.fields (before ++ [(k, v)]) k' :: stack).length + depth w ≤ maxDepth := by
      rw [List.length_cons]
      omega
    obtain ⟨s', hs', hholds⟩ := run_text w (.fields (before ++ [(k, v)]) k' :: stack) false hlength
    rw [fieldTexts, more_cons, run_ascii (by decide), hs.step (by decide) rfl, hcomma,
      Option.bind_some, run_key, bytesOf_append, run_append, hs', Option.bind_some]
    have hrest := run_fields fs w k' s' stack (before ++ [(k, v)]) (by omega) hholds
    rw [List.append_assoc] at hrest
    exact hrest

end

end State

/-- **A value's own bytes read back.** -/
theorem fromSlice_toVec {v : Value} (h : depth v ≤ maxDepth) : fromSlice (toVec v) = .ok v := by
  have hdepth : ([] : List Frame).length + depth v ≤ maxDepth := by simpa using h
  obtain ⟨s, hs, hholds⟩ := State.run_text v [] false hdepth
  rw [fromSlice, toVec_eq_bytesOf, State.start, hs]
  rcases hholds with rfl | ⟨negative, n, rfl, rfl⟩
  · rfl
  · rfl

namespace State

/-- Input could end here, so what follows is blank or goes on with a number. -/
theorem Holds.next {s s' : State} {v : Value} {b : UInt8} (h : Holds s [] v)
    (hs : s.step b = some s') : (∃ v', Holds s' [] v') ∧ b ≠ UInt8.ofNat '\x7d'.toNat := by
  have hclose : s.step (UInt8.ofNat '\x7d'.toNat) = none := by
    rw [h.step (by decide) rfl]
    rfl
  refine ⟨?_, ?_⟩
  · have hafter : ∀ {v : Value} {c : Char}, after [] v c = some s' → Holds s' [] v := by
      intro v c hc
      unfold after at hc
      split at hc
      · cases hc
        exact .inl rfl
      · cases hc
    rcases h with rfl | ⟨negative, n, rfl, rfl⟩
    · exact ⟨_, hafter hs⟩
    · simp only [State.step] at hs
      split at hs
      · split at hs
        · cases hs
        · cases hs
          exact ⟨_, .inr ⟨negative, _, rfl, rfl⟩⟩
      · exact ⟨_, hafter hs⟩
  · rintro rfl
    rw [hclose] at hs
    cases hs

theorem Holds.no_brace {s s' : State} {v : Value} {bs : Bytes} (h : Holds s [] v)
    (hs : s.run bs = some s') : UInt8.ofNat '\x7d'.toNat ∉ bs := by
  induction bs generalizing s v with
  | nil => exact List.not_mem_nil
  | cons b bs ih =>
    rw [run_cons, Option.bind_eq_some_iff] at hs
    obtain ⟨t, ht, hrest⟩ := hs
    obtain ⟨⟨v', hv'⟩, hb⟩ := h.next ht
    rw [List.mem_cons, not_or]
    exact ⟨hb.symm, ih hv' hrest⟩

theorem finish_cases (s : State) : s.finish = .error .eof ∨ ∃ v, Holds s [] v := by
  unfold finish
  split
  · rename_i v hstack hmode
    exact .inr ⟨v, .inl (by cases s; simp_all)⟩
  · rename_i negative n hstack hmode
    exact .inr ⟨signed negative n, .inr ⟨negative, n, by cases s; simp_all, rfl⟩⟩
  · exact .inl rfl

end State

/-- **A cut object is incomplete**, wherever it is cut. -/
theorem fromSlice_cut {fields : List (String × Value)} {cut rest : Bytes}
    (hdepth : depth (.object fields) ≤ maxDepth) (hrest : rest ≠ [])
    (h : toVec (.object fields) = cut ++ rest) : fromSlice cut = .error .eof := by
  have hlength : ([] : List Frame).length + depth (.object fields) ≤ maxDepth := by
    simpa using hdepth
  obtain ⟨final, hfinal, -⟩ := State.run_text (.object fields) [] false hlength
  rw [← toVec_eq_bytesOf, h, State.run_append, Option.bind_eq_some_iff] at hfinal
  obtain ⟨s, hs, hcontinues⟩ := hfinal
  rw [fromSlice, State.start, hs]
  rcases s.finish_cases with heof | ⟨v, hv⟩
  · exact heof
  · refine absurd ?_ (hv.no_brace hcontinues)
    -- the object's own brace is the last byte, so it is in what was cut off
    have hlast : toVec (.object fields) = bytesOf ('\x7b' :: (",".intercalate
        (fieldTexts fields)).toList) ++ [UInt8.ofNat '\x7d'.toNat] := by
      rw [toVec_eq_bytesOf, ← List.append_nil (text (.object fields)).toList, toList_object,
        ← List.cons_append, bytesOf_append]
      rfl
    rw [h] at hlast
    have hlast? : (cut ++ rest).getLast? = some (UInt8.ofNat '\x7d'.toNat) := by
      rw [hlast, List.getLast?_concat]
    rw [List.getLast?_append_of_ne_nil _ hrest] at hlast?
    exact List.mem_of_getLast? hlast?

end LumaOS.Json
