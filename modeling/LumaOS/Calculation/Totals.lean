import LumaOS.Base.Loop
import LumaOS.Base.Table
import LumaOS.Base.Tally
import LumaOS.Base.Word
import LumaOS.Calculation.Csv
import LumaOS.Text.Affix
import LumaOS.Text.Digits
import Mathlib.Algebra.Order.Field.Rat
import Mathlib.Data.List.Perm.Basic
import Mathlib.Tactic.IntervalCases
import Mathlib.Tactic.Ring

/-!
# Monthly totals of invoices

`date_month`, `cents`, `formatted_cents` and `calculate` of `calculation.rs`. The ordered map of
`calculate` is an `ExtTreeMap` under `compareKeys`; an addition or a negation that leaves `i128`
panics, as the build checks for overflow.

`Denotes t q` says which number a decimal text writes, without reading it the way `cents` does.
`cents_cases` is all that `cents` can do, and `invoice_totals_exact` compares the groups of a report
with `count` and `total` of the records.
-/

namespace LumaOS.Calculation

open LumaOS.Base LumaOS.Text LumaOS.Json Std

/-! ## Numbers -/

/-- A value that is an `i128`. -/
def i128 (n : Int) : Option Int := if -2 ^ 127 ≤ n ∧ n < 2 ^ 127 then some n else none

/-- Digits, at least one. -/
def parseDigits (cs : List Char) : Option Nat :=
  if cs.isEmpty || !cs.all Char.isDigit then none else some (ofDigits cs)

/-- `str::parse::<i128>`. -/
def parseI128 (s : String) : Option Int :=
  match s.toList with
  | '-' :: cs => (parseDigits cs).bind fun n : Nat => i128 (-(n : Int))
  | _ => (parseDigits (unsigned s)).bind fun n : Nat => i128 (n : Int)

/-- `(b'0'..=b'9').contains(&b)`. -/
def asciiDigit (b : UInt8) : Bool := 48 ≤ b && b ≤ 57

/-- `date_month`. Behind the first check every byte is a character. -/
def dateMonth (value : String) : Result String := do
  let b := bytesOf value.toList
  refuseIf (b.length != 10 || b[4]? != some 45 || b[7]? != some 45 ||
    b.zipIdx.any fun e => e.2 != 4 && e.2 != 7 && !asciiDigit e.1) "invoice date must be YYYY-MM-DD"
  let year ← okOr (parseU32 (String.ofList (value.toList.take 4))) invalidDigit
  let month ← okOr (parseU32 (String.ofList ((value.toList.drop 5).take 2))) invalidDigit
  let day ← okOr (parseU32 (String.ofList (value.toList.drop 8))) invalidDigit
  let leap := year % 4 == 0 && (year % 100 != 0 || year % 400 == 0)
  let days :=
    if month ∈ [1, 3, 5, 7, 8, 10, 12] then 31
    else if month ∈ [4, 6, 9, 11] then 30
    else if month == 2 then (if leap then 29 else 28)
    else 0
  refuseIf (year == 0 || day == 0 || day > days) "invalid invoice calendar date"
  pure (String.ofList (value.toList.take 7))

/-- What `cents` says of a text that is no amount. -/
def notExact : String := "invoice amount must be an exact decimal with at most two places"

/-- The sign, the digits before the point and those behind it. -/
def amountParts (value : String) : Bool × String × Option String :=
  let (negative, unsigned) := match stripPrefix "-" value with
    | some rest => (true, rest)
    | none => (false, value)
  match splitOnce '.' unsigned with
  | some (whole, fraction) => (negative, whole, some fraction)
  | none => (negative, unsigned, none)

/-- The `decimal` of `cents`. -/
def decimalPlaces : Option String → Result Int
  | none => pure 0
  | some f =>
    if f.utf8ByteSize == 1 then do
      let d ← okOr (parseI128 f) invalidDigit
      expect (i128 (d * 10)) "attempt to multiply with overflow"
    else okOr (parseI128 f) invalidDigit

def cents (value : String) : Result Int := do
  let (negative, whole, fraction) := amountParts value
  refuseIf (whole.isEmpty || whole.utf8ByteSize > 12 || !whole.toList.all Char.isDigit ||
    fraction.any fun f => f.isEmpty || f.utf8ByteSize > 2 || !f.toList.all Char.isDigit) notExact
  let integer ← okOr (parseI128 whole) invalidDigit
  let decimal ← decimalPlaces fraction
  let amount ← okOr ((i128 (integer * 100)).bind fun v => i128 (v + decimal))
    "invoice amount overflow"
  if negative then expect (i128 (-amount)) "attempt to negate with overflow" else pure amount

def formattedCents (value : Int) : Result String := do
  let sign := if value < 0 then ['-'] else []
  let absolute ← expect (i128 |value|) overflow
  pure (String.ofList (sign ++ Nat.toDigits 10 (absolute / 100).toNat ++
    '.' :: padded 2 (absolute % 100).toNat))

/-! ## The report -/

structure Group where
  month : String
  currency : String
  invoiceCount : Nat
  total : String
deriving DecidableEq, Repr

structure Report where
  schemaVersion : Nat
  reportType : String
  sourceSha256 : String
  recordCount : Nat
  groups : List Group
deriving DecidableEq, Repr

/-- The key of a group: month and currency. -/
abbrev Key := String × String

/-- The order of `(String, String)`. -/
def compareKeys : Key → Key → Ordering := compareLex (compareOn Prod.fst) (compareOn Prod.snd)

instance transCompareKeys : TransCmp compareKeys :=
  inferInstanceAs (TransCmp (compareLex (compareOn Prod.fst) (compareOn Prod.snd)))

theorem compareKeys_eq {a b : Key} :
    compareKeys a b = (compare a.1 b.1).then (compare a.2 b.2) := rfl

instance lawfulCompareKeys : LawfulEqCmp compareKeys where
  eq_of_compare {a b} h := by
    rw [compareKeys_eq, Ordering.then_eq_eq] at h
    exact Prod.ext (Std.compare_eq_iff_eq.mp h.1) (Std.compare_eq_iff_eq.mp h.2)

/-- `BTreeMap<(String, String), (u32, i128)>`. -/
abbrev Totals := ExtTreeMap Key (Nat × Int) compareKeys

/-- The columns that count. -/
structure Columns where
  date : Nat
  amount : Nat
  currency : Nat

/-- A header name, and that it is new. -/
def checkName (names : Names) (name : String) : Result Names := do
  refuseIf (name.isEmpty || name.utf8ByteSize > 64 ||
    !(name.toList.all fun c => c.isLower || c.isDigit || c == '_') || names.contains name)
    "invalid or duplicate invoice CSV header"
  pure (names.insert name)

/-- The `find` of `calculate`. -/
def findColumn (header : List String) (name : String) : Result Nat :=
  okOr (header.findIdx? (· == name)) "missing invoice CSV column"

def columns (header : List String) : Result Columns := do
  let date ← findColumn header "invoice_date"
  let amount ← findColumn header "amount"
  let currency ← findColumn header "currency"
  pure ⟨date, amount, currency⟩

def outOfBounds : String := "index out of bounds"

/-- What a row says: its month and currency, and its amount. -/
def readRecord (width : Nat) (columns : Columns) (row : List String) : Result (Key × Int) := do
  refuseIf (row.length != width) "ragged invoice CSV record"
  let month ← dateMonth (← expect row[columns.date]? outOfBounds)
  let value ← cents (← expect row[columns.amount]? outOfBounds)
  let code ← expect row[columns.currency]? outOfBounds
  refuseIf (code.utf8ByteSize != 3 || !code.toList.all Char.isUpper)
    "invoice currency must be a three-letter uppercase code"
  pure ((month, code), value)

/-- The entry of a record takes it in. -/
def addRecord (totals : Totals) (record : Key × Int) : Result Totals := do
  let entry := (totals[record.1]?).getD (0, 0)
  let invoices ← okOr (if entry.1 + 1 < 2 ^ 32 then some (entry.1 + 1) else none)
    "invoice count overflow"
  let sum ← okOr (i128 (entry.2 + record.2)) "invoice total overflow"
  pure (totals.insert record.1 (invoices, sum))

/-- One turn of the loop over the rows. -/
def addRow (width : Nat) (columns : Columns) (totals : Totals) (row : List String) :
    Result Totals := do
  let record ← readRecord width columns row
  addRecord totals record

def group (entry : Key × (Nat × Int)) : Result Group := do
  let text ← formattedCents entry.2.2
  pure ⟨entry.1.1, entry.1.2, entry.2.1, text⟩

def calculate (sha256 : Bytes → Bytes) (bytes : Bytes) : Result Report := do
  let rows ← parseCsv bytes
  let header ← expect rows.head? outOfBounds
  let _ ← header.foldlM checkName ∅
  let columns ← columns header
  let totals ← (rows.drop 1).foldlM (addRow header.length columns) ∅
  let groups ← totals.toList.mapM group
  pure ⟨1, "invoice-summary-v1", hex (sha256 bytes), (rows.length - 1) % 2 ^ 32, groups⟩

/-! ## What a decimal text denotes -/

/-- A decimal text: a sign, digits, and digits behind a point. -/
def written (negative : Bool) (whole fraction : List Char) : String :=
  String.ofList ((if negative then ['-'] else []) ++ whole ++
    if fraction = [] then [] else '.' :: fraction)

/-- **The number that a decimal text writes.** -/
def Denotes (text : String) (q : ℚ) : Prop :=
  ∃ negative whole fraction, whole ≠ [] ∧ (∀ c ∈ whole, c.isDigit = true) ∧
    (∀ c ∈ fraction, c.isDigit = true) ∧ text = written negative whole fraction ∧
      q = (if negative then -1 else 1) * (ofDigits (whole ++ fraction) / 10 ^ fraction.length)

section

variable {n v : Int} {negative : Bool} {whole fraction cs : List Char} {value : String}

theorem i128_eq_some (h : |n| < 2 ^ 127) : i128 n = some n := by
  have := abs_lt.mp h
  rw [i128, if_pos (by omega)]

theorem ofDigits_lt (h : ∀ c ∈ cs, c.isDigit = true) : ofDigits cs < 10 ^ cs.length :=
  (digits_ofDigits rfl h).1

theorem parseDigits_eq (hne : cs ≠ []) (h : ∀ c ∈ cs, c.isDigit = true) :
    parseDigits cs = some (ofDigits cs) := by
  have hall : cs.all Char.isDigit = true := List.all_eq_true.mpr h
  rw [parseDigits, hall, List.isEmpty_eq_false_iff.mpr hne]
  rfl

/-- **Digits are read as their number.** -/
theorem parseI128_ofDigits (hne : cs ≠ []) (h : ∀ c ∈ cs, c.isDigit = true)
    (hlt : ofDigits cs < 2 ^ 127) : parseI128 (String.ofList cs) = some (ofDigits cs : Int) := by
  have hrange : i128 (ofDigits cs : Int) = some (ofDigits cs : Int) :=
    i128_eq_some (by rw [abs_of_nonneg (by omega)]; omega)
  obtain ⟨c, cs, rfl⟩ := List.exists_cons_of_ne_nil hne
  have hc := h c List.mem_cons_self
  have hplus : unsigned (String.ofList (c :: cs)) = c :: cs := by
    unfold unsigned
    rw [String.toList_ofList]
    split
    · rename_i heq
      cases heq
      cases hc
    · rfl
  unfold parseI128
  rw [hplus, String.toList_ofList]
  split
  · rename_i heq
    cases heq
    cases hc
  · rw [parseDigits_eq hne h, Option.bind_some, hrange]

theorem parseI128_digits (hne : cs ≠ []) (h : ∀ c ∈ cs, c.isDigit = true)
    (hlength : cs.length ≤ 12) : parseI128 (String.ofList cs) = some (ofDigits cs : Int) := by
  have hlt : ofDigits cs < 10 ^ 12 :=
    (ofDigits_lt h).trans_le (Nat.pow_le_pow_right (by decide) hlength)
  exact parseI128_ofDigits hne h (hlt.trans (by decide))

theorem utf8ByteSize_digits (h : ∀ c ∈ cs, c.isDigit = true) :
    (String.ofList cs).utf8ByteSize = cs.length :=
  utf8ByteSize_ofList_ascii fun c hc => utf8Size_of_lowerHex (by rw [lowerHex, h c hc]; rfl)

theorem stripPrefix_written : stripPrefix "-" (written true whole fraction) =
    some (written false whole fraction) := by
  rw [stripPrefix_eq_some, ← String.toList_inj]
  simp [written]

theorem stripPrefix_digits (hne : whole ≠ []) (h : ∀ c ∈ whole, c.isDigit = true) :
    stripPrefix "-" (written false whole fraction) = none := by
  obtain ⟨c, cs, rfl⟩ := List.exists_cons_of_ne_nil hne
  have hc : c ≠ '-' := by
    rintro rfl
    exact absurd (h _ List.mem_cons_self) (by decide)
  unfold stripPrefix
  rw [if_neg]
  simp [written, Ne.symm hc]

theorem splitOnce_written (h : ∀ c ∈ whole, c.isDigit = true) :
    splitOnce '.' (written false whole fraction) = if fraction = [] then none else
      some (String.ofList whole, String.ofList fraction) := by
  have hpoint : '.' ∉ whole := fun hmem => absurd (h _ hmem) (by decide)
  unfold splitOnce written
  rw [String.toList_ofList]
  by_cases hf : fraction = []
  · simp [hf, hpoint]
  · have htake : (whole ++ '.' :: fraction).takeWhile (· != '.') = whole := by
      rw [List.takeWhile_append_of_pos]
      · simp
      · intro c hc
        rw [bne_iff_ne]
        rintro rfl
        exact hpoint hc
    have hdrop : (whole ++ '.' :: fraction).dropWhile (· != '.') = '.' :: fraction := by
      rw [List.dropWhile_append_of_pos]
      · simp
      · intro c hc
        rw [bne_iff_ne]
        rintro rfl
        exact hpoint hc
    simp [hf, htake, hdrop]

/-- The hundredths of a decimal text with at most two places. -/
def hundredths (negative : Bool) (whole fraction : List Char) : Int :=
  (if negative then -1 else 1) * (ofDigits (whole ++ fraction) * 10 ^ (2 - fraction.length) : Nat)

/-- The texts that `cents` reads. -/
structure Exact (whole fraction : List Char) : Prop where
  nonempty : whole ≠ []
  short : whole.length ≤ 12
  whole : ∀ c ∈ whole, c.isDigit = true
  places : fraction.length ≤ 2
  fraction : ∀ c ∈ fraction, c.isDigit = true

theorem ofDigits_append : ofDigits (whole ++ fraction) =
    ofDigits whole * 10 ^ fraction.length + ofDigits fraction := by
  rw [ofDigits, Nat.ofDigitChars_append, Nat.ofDigitChars_eq_ofDigitChars_zero, ofDigits, ofDigits,
    Nat.mul_comm]

theorem Exact.lt (h : Exact whole fraction) :
    ofDigits (whole ++ fraction) * 10 ^ (2 - fraction.length) < 10 ^ 14 := by
  have hw : ofDigits whole < 10 ^ 12 :=
    (ofDigits_lt h.whole).trans_le (Nat.pow_le_pow_right (by decide) h.short)
  have hf := ofDigits_lt h.fraction
  have hp := h.places
  rw [ofDigits_append]
  interval_cases hl : fraction.length <;> omega

theorem abs_hundredths (h : Exact whole fraction) : |hundredths negative whole fraction| < 10 ^ 14 := by
  have hlt := h.lt
  unfold hundredths
  cases negative <;> simp only [Bool.false_eq_true, if_true, if_false, one_mul, neg_mul, abs_neg] <;>
    rw [abs_of_nonneg (by omega)] <;> exact_mod_cast hlt

/-- What `cents` makes of the places. -/
def places (fraction : List Char) : Int := (ofDigits fraction * 10 ^ (2 - fraction.length) : Nat)

theorem hundredths_eq (h : Exact whole fraction) : hundredths negative whole fraction =
    (if negative then -1 else 1) * (ofDigits whole * 100 + places fraction) := by
  have hp := h.places
  rw [hundredths, places, ofDigits_append]
  interval_cases hl : fraction.length <;> push_cast <;> ring

theorem Exact.guard (h : Exact whole fraction) :
    ((String.ofList whole).isEmpty || (String.ofList whole).utf8ByteSize > 12 ||
      !(String.ofList whole).toList.all Char.isDigit) = false := by
  have hne : (String.ofList whole).isEmpty = false := by
    rw [String.isEmpty_eq_false_iff, ne_eq, String.ofList_eq_empty_iff]
    exact h.nonempty
  have hall : whole.all Char.isDigit = true := List.all_eq_true.mpr h.whole
  have := h.short
  rw [hne, utf8ByteSize_digits h.whole, String.toList_ofList, hall]
  simpa using this

theorem Exact.guardFraction (h : Exact whole fraction) (hne : fraction ≠ []) :
    ((String.ofList fraction).isEmpty || (String.ofList fraction).utf8ByteSize > 2 ||
      !(String.ofList fraction).toList.all Char.isDigit) = false := by
  have hempty : (String.ofList fraction).isEmpty = false := by
    rw [String.isEmpty_eq_false_iff, ne_eq, String.ofList_eq_empty_iff]
    exact hne
  have hall : fraction.all Char.isDigit = true := List.all_eq_true.mpr h.fraction
  have := h.places
  rw [hempty, utf8ByteSize_digits h.fraction, String.toList_ofList, hall]
  simpa using this

/-- The amount and its sign, once the digits are read. -/
theorem signed (h : Exact whole fraction) :
    okOr ((i128 (ofDigits whole * 100)).bind fun v => i128 (v + places fraction))
        "invoice amount overflow" = .ok (hundredths false whole fraction) ∧
      (if negative then expect (i128 (-hundredths false whole fraction))
        "attempt to negate with overflow" else pure (hundredths false whole fraction)) =
        .ok (hundredths negative whole fraction) := by
  have hw : ofDigits whole < 10 ^ 12 :=
    (ofDigits_lt h.whole).trans_le (Nat.pow_le_pow_right (by decide) h.short)
  have habs := abs_lt.mp (@abs_hundredths false whole fraction h)
  have heq : ∀ negative, hundredths negative whole fraction = _ := fun negative =>
    @hundredths_eq negative whole fraction h
  have hfirst : i128 (ofDigits whole * 100 : Int) = some (ofDigits whole * 100 : Int) :=
    i128_eq_some (by rw [abs_of_nonneg (by omega)]; omega)
  have hsum : (ofDigits whole * 100 : Int) + places fraction =
      hundredths false whole fraction := by
    rw [heq]
    simp
  constructor
  · rw [hfirst, Option.bind_some, hsum, i128_eq_some (abs_lt.mpr (by omega))]
    rfl
  · cases negative with
    | false => rfl
    | true =>
      rw [if_pos rfl, i128_eq_some (by rw [abs_neg]; exact abs_lt.mpr (by omega))]
      rw [heq true, ← hsum]
      simp [expect]

theorem amountParts_written (hne : whole ≠ []) (h : ∀ c ∈ whole, c.isDigit = true) :
    amountParts (written negative whole fraction) =
      (negative, String.ofList whole,
        if fraction = [] then none else some (String.ofList fraction)) := by
  have hplain : written false whole [] = String.ofList whole := by simp [written]
  unfold amountParts
  cases negative with
  | true =>
    simp only [stripPrefix_written, splitOnce_written h]
    by_cases hf : fraction = []
    · subst hf
      simp [hplain]
    · simp [hf]
  | false =>
    simp only [stripPrefix_digits hne h, splitOnce_written h]
    by_cases hf : fraction = []
    · subst hf
      simp [hplain]
    · simp [hf]

theorem decimalPlaces_eq (hdigits : ∀ c ∈ fraction, c.isDigit = true)
    (hplaces : fraction.length ≤ 2) :
    decimalPlaces (if fraction = [] then none else some (String.ofList fraction)) =
      .ok (places fraction) := by
  by_cases hf : fraction = []
  · subst hf
    rfl
  have hread := parseI128_digits hf hdigits (by omega)
  have hlt := ofDigits_lt hdigits
  rw [if_neg hf, decimalPlaces, utf8ByteSize_digits hdigits, hread, places]
  obtain hone | htwo : fraction.length = 1 ∨ fraction.length = 2 := by
    have := List.length_pos_iff.mpr hf
    omega
  · rw [hone] at hlt ⊢
    have hten : i128 ((ofDigits fraction : Int) * 10) = some ((ofDigits fraction : Int) * 10) :=
      i128_eq_some (by rw [abs_of_nonneg (by omega)]; omega)
    simp only [BEq.rfl, if_true, bind_eq_ok, okOr_eq_ok, expect_eq_ok]
    exact ⟨_, rfl, by rw [hten]; simp⟩
  · rw [htwo]
    simp [okOr]

/-- **`cents` reads every decimal of at most two places** and twelve digits. -/
theorem cents_written (h : Exact whole fraction) :
    cents (written negative whole fraction) = .ok (hundredths negative whole fraction) := by
  have hwhole := parseI128_digits h.nonempty h.whole h.short
  have hdecimal := decimalPlaces_eq h.fraction h.places
  obtain ⟨hamount, hsign⟩ := @signed negative whole fraction h
  have hfraction : (if fraction = [] then none else some (String.ofList fraction)).any (fun f =>
      f.isEmpty || f.utf8ByteSize > 2 || !f.toList.all Char.isDigit) = false := by
    by_cases hf : fraction = []
    · rw [if_pos hf]
      rfl
    · rw [if_neg hf]
      exact h.guardFraction hf
  rw [cents, amountParts_written h.nonempty h.whole]
  simp only [bind_eq_ok, refuseIf_eq_ok, h.guard, hfraction, hwhole, hdecimal, okOr_eq_ok]
  rw [okOr_eq_ok] at hamount
  exact ⟨(), rfl, _, rfl, _, rfl, _, hamount, hsign⟩

/-- The text behind the point. -/
def pointed : Option String → String
  | none => ""
  | some f => "." ++ f

theorem amountParts_eq {first : String} {rest : Option String}
    (h : amountParts value = (negative, first, rest)) :
    value = (if negative then "-" else "") ++ first ++ pointed rest := by
  have hsplit : ∀ {n : Bool} {s : String}, (match splitOnce '.' s with
      | some (whole, fraction) => (n, whole, some fraction)
      | none => (n, s, none)) = (negative, first, rest) →
        n = negative ∧ s = first ++ pointed rest := by
    intro n s hs
    split at hs
    · rename_i heq
      cases hs
      refine ⟨rfl, ?_⟩
      rw [splitOnce_eq_some heq, String.append_assoc]
      rfl
    · cases hs
      simp [pointed]
  unfold amountParts at h
  cases hstrip : stripPrefix "-" value with
  | some r =>
    simp only [hstrip] at h
    obtain ⟨rfl, rfl⟩ := hsplit h
    rw [stripPrefix_eq_some.mp hstrip, if_pos rfl, String.append_assoc]
  | none =>
    simp only [hstrip] at h
    obtain ⟨rfl, rfl⟩ := hsplit h
    simp

theorem digits_of_guard {s : String} {n : Nat}
    (h : (s.isEmpty || s.utf8ByteSize > n || !s.toList.all Char.isDigit) = false) :
    s.toList ≠ [] ∧ s.toList.length ≤ n ∧ ∀ c ∈ s.toList, c.isDigit = true := by
  simp only [Bool.or_eq_false_iff, Bool.not_eq_false', decide_eq_false_iff_not, Nat.not_lt, gt_iff_lt,
    String.isEmpty_eq_false_iff, List.all_eq_true] at h
  obtain ⟨⟨hne, hsize⟩, hall⟩ := h
  refine ⟨by simpa using hne, ?_, hall⟩
  rwa [← utf8ByteSize_digits hall, String.ofList_toList]

/-- **All that `cents` can do.** -/
theorem cents_cases (value : String) : cents value = refuse notExact ∨
    ∃ negative whole fraction, Exact whole fraction ∧ value = written negative whole fraction := by
  rcases hparts : amountParts value with ⟨negative, first, rest⟩
  have hvalue := amountParts_eq hparts
  cases hguard : (first.isEmpty || first.utf8ByteSize > 12 || !first.toList.all Char.isDigit) ||
      rest.any fun f => f.isEmpty || f.utf8ByteSize > 2 || !f.toList.all Char.isDigit with
  | true =>
    refine .inl ?_
    rw [cents, hparts]
    simp only [hguard]
    rfl
  | false =>
    obtain ⟨hfirst, hrest⟩ := Bool.or_eq_false_iff.mp hguard
    obtain ⟨hne, hshort, hdigits⟩ := digits_of_guard hfirst
    refine .inr ⟨negative, first.toList, ?_⟩
    cases rest with
    | none =>
      refine ⟨[], ⟨hne, hshort, hdigits, by decide, by decide⟩, ?_⟩
      rw [hvalue, ← String.toList_inj]
      cases negative <;> simp [written, pointed]
    | some f =>
      obtain ⟨hfne, hfshort, hfdigits⟩ := digits_of_guard hrest
      refine ⟨f.toList, ⟨hne, hshort, hdigits, hfshort, hfdigits⟩, ?_⟩
      rw [hvalue, ← String.toList_inj]
      cases negative <;> simp [written, pointed, hfne]

/-- **What `cents` reads denotes the amount**, and it is small. -/
theorem cents_exact (h : cents value = .ok v) : |v| < 10 ^ 14 ∧ Denotes value (v / 100) := by
  obtain hrefused | ⟨negative, whole, fraction, hexact, rfl⟩ := cents_cases value
  · rw [hrefused] at h
    cases h
  rw [cents_written hexact, Except.ok.injEq] at h
  subst h
  refine ⟨abs_hundredths hexact, negative, whole, fraction, hexact.nonempty, hexact.whole,
    hexact.fraction, rfl, ?_⟩
  have hp := hexact.places
  rw [hundredths]
  interval_cases hl : fraction.length <;> push_cast <;> ring

/-- `cents` fails only on a text that is no amount. -/
theorem cents_error {e : Stop} (h : cents value = .error e) : e = .refused notExact := by
  obtain hrefused | ⟨negative, whole, fraction, hexact, rfl⟩ := cents_cases value
  · rw [hrefused] at h
    cases h
    rfl
  · rw [cents_written hexact] at h
    cases h

/-! ## Writing an amount -/

/-- **What `formatted_cents` writes.** -/
theorem formattedCents_eq (h : |v| < 2 ^ 127) :
    formattedCents v = .ok (written (decide (v < 0)) (Nat.toDigits 10 (v.natAbs / 100))
      (digits 2 (v.natAbs % 100))) := by
  have habs : i128 |v| = some |v| := i128_eq_some (by rwa [abs_abs])
  have hnat : |v| = (v.natAbs : Int) := Int.abs_eq_natAbs v
  have hwhole : (|v| / 100).toNat = v.natAbs / 100 := by
    rw [hnat]
    omega
  have hrest : (|v| % 100).toNat = v.natAbs % 100 := by
    rw [hnat]
    omega
  have hlt : v.natAbs % 100 < 10 ^ 2 := Nat.mod_lt _ (by decide)
  have hne : digits 2 (v.natAbs % 100) ≠ [] := List.ne_nil_of_length_eq_add_one (length_digits 2 _)
  simp only [formattedCents, habs, bind_eq_ok, expect_eq_ok, pure_eq_ok]
  refine ⟨_, rfl, ?_⟩
  rw [hwhole, hrest, padded_eq_digits (by decide : 0 < 2) hlt, written, if_neg hne]
  simp only [decide_eq_true_eq]

theorem isDigit_toDigits {n : Nat} {c : Char} (h : c ∈ Nat.toDigits 10 n) : c.isDigit = true :=
  Nat.isDigit_of_mem_toDigits (by decide) (by decide) h

/-- The digits together are those of the amount. -/
theorem ofDigits_formatted {n : Nat} :
    ofDigits (Nat.toDigits 10 (n / 100) ++ digits 2 (n % 100)) = n := by
  have hlt : n % 100 < 10 ^ 2 := Nat.mod_lt n (by decide)
  rw [ofDigits_append, length_digits, ofDigits_digits hlt, ofDigits,
    Nat.ofDigitChars_ten_toDigits]
  omega

theorem sign_natAbs : (if decide (v < 0) then -1 else 1) * (v.natAbs : Int) = v := by
  by_cases h : v < 0
  · simp only [h, decide_true, if_true]
    omega
  · simp only [h, decide_false, Bool.false_eq_true, if_false]
    omega

/-- **The text denotes the amount.** -/
theorem formattedCents_denotes (h : |v| < 2 ^ 127) :
    ∃ text, formattedCents v = .ok text ∧ Denotes text (v / 100) := by
  refine ⟨_, formattedCents_eq h, _, _, _, Nat.toDigits_ne_nil, fun c hc => isDigit_toDigits hc,
    fun c hc => isDigit_digits hc, rfl, ?_⟩
  rw [ofDigits_formatted, length_digits]
  have hsign : ((if decide (v < 0) then -1 else 1) * (v.natAbs : ℚ)) = v := by
    have h := congrArg (Int.cast : Int → ℚ) (@sign_natAbs v)
    rw [← h, Int.cast_mul, Int.cast_natCast]
    split <;> simp
  rw [← mul_div_assoc, hsign]
  norm_num

/-- **Small amounts read back.** -/
theorem cents_formattedCents (h : |v| < 10 ^ 14) :
    ∃ text, formattedCents v = .ok text ∧ cents text = .ok v := by
  have hv := abs_lt.mp h
  have hexact : Exact (Nat.toDigits 10 (v.natAbs / 100)) (digits 2 (v.natAbs % 100)) :=
    ⟨Nat.toDigits_ne_nil, (Nat.length_toDigits_le_iff (by decide) (by decide)).mpr (by omega),
      fun c hc => isDigit_toDigits hc, (length_digits 2 _).le, fun c hc => isDigit_digits hc⟩
  refine ⟨_, formattedCents_eq (h.trans (by norm_num)), ?_⟩
  rw [cents_written hexact, hundredths, ofDigits_formatted, length_digits]
  simpa using @sign_natAbs v

end

/-! ## The loop over the rows -/

section

variable {sha256 : Bytes → Bytes} {bytes : Bytes} {width : Nat} {cols : Columns}
  {totals totals' : Totals} {past rs : List (Key × Int)} {record : Key × Int}
  {row : List String} {records : List (List String)}

/-- What `calculate` says of sums that do not fit. -/
def Overflow (e : Stop) : Prop :=
  e ∈ [.refused "invoice count overflow", .refused "invoice total overflow",
    .refused "invoice amount overflow"] ∨ ∃ message, e = .panicked message

/-- What `calculate` says when it refuses. -/
def refusals : List String :=
  ["empty or oversized invoice CSV", "invalid utf-8 sequence", "invoice CSV contains a NUL byte",
    "invoice CSV contains a bare carriage return", "invoice CSV has too many columns",
    "invoice CSV has an empty row or too many rows", "malformed invoice CSV quoting",
    "invoice CSV field exceeds bound", "unterminated invoice CSV quote",
    "invoice CSV has no records", "invalid or duplicate invoice CSV header",
    "missing invoice CSV column", "ragged invoice CSV record", "invoice date must be YYYY-MM-DD",
    invalidDigit, "invalid invoice calendar date", notExact,
    "invoice currency must be a three-letter uppercase code"]

/-- The call fails with one of these texts only. -/
def Refuses {α : Type} (r : Result α) : Prop :=
  ∀ e, r = .error e → ∃ m ∈ refusals, e = .refused m

theorem refuses_ok {α : Type} {a : α} : Refuses (.ok a : Result α) := fun e h => by cases h

theorem refuses_refuse {α : Type} {m : String} (h : m ∈ refusals) :
    Refuses (refuse m : Result α) := fun e he => by
  cases he
  exact ⟨m, h, rfl⟩

theorem refuses_refuseIf {c : Bool} {m : String} (h : m ∈ refusals) :
    Refuses (refuseIf c m) := by
  cases c with
  | false => exact refuses_ok
  | true => exact refuses_refuse h

theorem refuses_okOr {α : Type} {o : Option α} {m : String} (h : m ∈ refusals) :
    Refuses (okOr o m) := by
  cases o with
  | none => exact refuses_refuse h
  | some a => exact refuses_ok

theorem refuses_expect {α : Type} {o : Option α} {m : String} (h : o ≠ none) :
    Refuses (expect o m) := by
  obtain ⟨a, rfl⟩ := Option.ne_none_iff_exists'.mp h
  exact refuses_ok

theorem refuses_bind {α β : Type} {x : Result α} {f : α → Result β} (hx : Refuses x)
    (hf : ∀ a, x = .ok a → Refuses (f a)) : Refuses (x >>= f) := by
  cases x with
  | error e =>
    intro e' h
    cases h
    exact hx e rfl
  | ok a => exact hf a rfl

theorem Columns.within {header : List String} (h : columns header = .ok cols) :
    cols.date < header.length ∧ cols.amount < header.length ∧ cols.currency < header.length := by
  have hfind : ∀ {name n}, findColumn header name = .ok n → n < header.length := by
    intro name n h
    exact (List.findIdx?_eq_some_iff_findIdx_eq.mp (okOr_eq_ok.mp h)).1
  simp only [columns, bind_eq_ok, pure_eq_ok] at h
  obtain ⟨a, ha, b, hb, c, hc, rfl⟩ := h
  exact ⟨hfind ha, hfind hb, hfind hc⟩

/-- The entries are few and their amounts small. -/
structure Bounded (l : List (Key × Int)) : Prop where
  few : l.length ≤ 10000
  small : ∀ e ∈ l, |e.2| < 10 ^ 14

theorem Bounded.total (h : Bounded past) (k : Key) : |Base.total past k| < 2 ^ 127 := by
  have hle := @total_le _ _ past k (10 ^ 14) fun e he => by
    have := h.small e he
    push_cast
    omega
  have hfew := h.few
  push_cast at hle
  omega

/-- **One record**: its entry takes it in. -/
theorem addRecord_eq (ht : Tallies totals past) (hb : Bounded (past ++ [record])) :
    ∃ t, addRecord totals record = .ok t ∧ Tallies t (past ++ [record]) := by
  have hfew := hb.few
  rw [List.length_append, List.length_singleton] at hfew
  have hcount : count past record.1 + 1 < 2 ^ 32 := by
    have := @count_le_length _ _ past record.1
    omega
  have hsum : i128 (total past record.1 + record.2) = some (total past record.1 + record.2) := by
    have htotal := hb.total record.1
    rw [total_append, if_pos rfl] at htotal
    exact i128_eq_some htotal
  refine ⟨_, ?_, ht.add⟩
  simp only [addRecord, ht.getD, hsum, if_pos hcount, okOr]
  rfl

theorem readRecord_eq_ok (h : readRecord width cols row = .ok record) :
    row.length = width ∧ ∃ date amount, row[cols.date]? = some date ∧
      row[cols.amount]? = some amount ∧ row[cols.currency]? = some record.1.2 ∧
        dateMonth date = .ok record.1.1 ∧ cents amount = .ok record.2 := by
  simp only [readRecord, bind_eq_ok, refuseIf_eq_ok, expect_eq_ok, pure_eq_ok, bne_eq_false_iff_eq,
    exists_const] at h
  obtain ⟨hwidth, date, hdate, month, hmonth, amount, hamount, value, hvalue, code, hcode, -, rfl⟩ :=
    h
  exact ⟨hwidth, date, amount, hdate, hamount, hcode, hmonth, hvalue⟩

theorem readRecord_small (h : readRecord width cols row = .ok record) : |record.2| < 10 ^ 14 := by
  obtain ⟨-, -, amount, -, -, -, -, hamount⟩ := readRecord_eq_ok h
  exact (cents_exact hamount).1

/-- What the rows say. -/
abbrev Says (width : Nat) (cols : Columns) : List (List String) → List (Key × Int) → Prop :=
  List.Forall₂ fun row record => readRecord width cols row = .ok record

/-- **The loop takes in what the rows say**, and fails only where a row does not say it. -/
theorem foldlM_addRow : ∀ {records : List (List String)} {past : List (Key × Int)}
    {totals : Totals}, Tallies totals past → (∀ e ∈ past, |e.2| < 10 ^ 14) →
    past.length + records.length ≤ 10000 →
    (∃ rs t, Says width cols records rs ∧ Tallies t (past ++ rs) ∧
      records.foldlM (addRow width cols) totals = .ok t) ∨
    ∃ row ∈ records, ∃ e, readRecord width cols row = .error e ∧
      records.foldlM (addRow width cols) totals = .error e
  | [], past, totals, ht, _, _ =>
    .inl ⟨[], totals, .nil, by rwa [List.append_nil], rfl⟩
  | row :: records, past, totals, ht, hpast, hfew => by
    rw [List.foldlM_cons, addRow]
    cases hread : readRecord width cols row with
    | error e => exact .inr ⟨row, List.mem_cons_self, e, hread, rfl⟩
    | ok record =>
      have hsmall : ∀ e ∈ past ++ [record], |e.2| < 10 ^ 14 := by
        intro e he
        rcases List.mem_append.mp he with he | he
        · exact hpast e he
        · exact List.mem_singleton.mp he ▸ readRecord_small hread
      rw [List.length_cons] at hfew
      have hlength : (past ++ [record]).length = past.length + 1 := List.length_append
      obtain ⟨t, hadd, ht'⟩ := addRecord_eq ht ⟨by omega, hsmall⟩
      have hnext : ((Except.ok record >>= fun record => addRecord totals record) >>= fun t =>
          records.foldlM (addRow width cols) t) = records.foldlM (addRow width cols) t := by
        change (addRecord totals record >>= _) = _
        rw [hadd]
        rfl
      rw [hnext]
      obtain ⟨rs, t', htells, htallies, hloop⟩ | ⟨r, hr, e, herr, hloop⟩ :=
        @foldlM_addRow records _ t ht' hsmall (by omega)
      · refine .inl ⟨record :: rs, t', .cons hread htells, ?_, hloop⟩
        rwa [List.append_cons]
      · exact .inr ⟨r, List.mem_cons_of_mem row hr, e, herr, hloop⟩

theorem group_eq {entry : Key × (Nat × Int)} (h : |entry.2.2| < 2 ^ 127) :
    ∃ g, group entry = .ok g ∧ (g.month, g.currency) = entry.1 ∧ g.invoiceCount = entry.2.1 ∧
      formattedCents entry.2.2 = .ok g.total ∧ Denotes g.total (entry.2.2 / 100) := by
  obtain ⟨text, htext, hdenotes⟩ := formattedCents_denotes h
  refine ⟨⟨entry.1.1, entry.1.2, entry.2.1, text⟩, ?_, rfl, rfl, htext, hdenotes⟩
  rw [group, htext]
  rfl

/-- The records of a table are few. -/
theorem few_records {header : List String} (h : parseCsv bytes = .ok (header :: records)) :
    records.length ≤ 10000 := by
  have hfew := (parseCsv_eq_ok.mp h).1.few
  rw [List.length_cons, maxRows] at hfew
  omega

theorem Says.small {rs : List (Key × Int)} (h : Says width cols records rs) :
    ∀ e ∈ rs, |e.2| < 10 ^ 14 := by
  induction h with
  | nil => exact fun e he => absurd he List.not_mem_nil
  | cons hread _ ih => exact List.forall_mem_cons.mpr ⟨readRecord_small hread, ih⟩

theorem Says.reads {rs : List (Key × Int)} (h : Says width cols records rs) (hrow : row ∈ records) :
    ∃ record, readRecord width cols row = .ok record := by
  induction h with
  | nil => exact absurd hrow List.not_mem_nil
  | cons hread _ ih =>
    rcases List.mem_cons.mp hrow with rfl | hrow
    · exact ⟨_, hread⟩
    · exact ih hrow

theorem Says.bounded {header : List String} (hparse : parseCsv bytes = .ok (header :: records))
    (h : Says width cols records rs) : Bounded rs :=
  ⟨h.length_eq ▸ few_records hparse, h.small⟩

theorem groups_complete (ht : Tallies totals rs) (hb : Bounded rs) :
    ∃ groups, totals.toList.mapM group = .ok groups := by
  refine mapM_completes fun entry he => ?_
  obtain ⟨-, hv⟩ := ht.entry.mp he
  obtain ⟨g, hg, -⟩ := @group_eq entry (by rw [hv]; exact hb.total entry.1)
  exact ⟨g, hg⟩

/-- **The report of records that can be read.** -/
theorem calculate_says {header : List String} {names : Names} (sha256 : Bytes → Bytes)
    (hparse : parseCsv bytes = .ok (header :: records))
    (hnames : header.foldlM checkName ∅ = .ok names) (hcols : columns header = .ok cols)
    (htells : Says header.length cols records rs) :
    ∃ (totals : Totals) (groups : List Group), Tallies totals rs ∧
      totals.toList.mapM group = .ok groups ∧ calculate sha256 bytes =
        .ok ⟨1, "invoice-summary-v1", hex (sha256 bytes), records.length, groups⟩ := by
  have hfew := few_records hparse
  obtain ⟨rs', t, htells', ht, hloop⟩ | ⟨row, hrow, e, herr, -⟩ :=
    @foldlM_addRow header.length cols records [] (∅ : Totals) tallies_nil (by simp)
      (by rw [List.length_nil]; omega)
  · obtain rfl : rs' = rs := List.right_unique_forall₂' (fun _ _ _ ha hb => by
      rw [ha] at hb
      exact Except.ok.inj hb) htells' htells
    obtain ⟨groups, hgroups⟩ := groups_complete ht (htells.bounded hparse)
    refine ⟨t, groups, by rwa [List.nil_append] at ht, hgroups, ?_⟩
    simp only [calculate, bind_eq_ok, expect_eq_ok, pure_eq_ok, hparse]
    refine ⟨_, rfl, header, rfl, names, hnames, cols, hcols, t, hloop, groups, hgroups, ?_⟩
    rw [List.length_cons, Nat.add_sub_cancel, Nat.mod_eq_of_lt (by omega)]
  · obtain ⟨record, hread⟩ := htells.reads hrow
    rw [herr] at hread
    cases hread

/-- **What an accepted text says.** -/
theorem calculate_eq_ok {report : Report} (h : calculate sha256 bytes = .ok report) :
    ∃ header records names cols rs, parseCsv bytes = .ok (header :: records) ∧
      header.foldlM checkName ∅ = .ok names ∧ columns header = .ok cols ∧
        Says header.length cols records rs := by
  simp only [calculate, bind_eq_ok, expect_eq_ok, pure_eq_ok] at h
  obtain ⟨rows, hparse, header, hhead, names, hnames, cols, hcols, t, hloop, -, -, -⟩ := h
  obtain ⟨records, rfl⟩ : ∃ records, rows = header :: records := by
    cases rows with
    | nil => cases hhead
    | cons row rows =>
      cases hhead
      exact ⟨rows, rfl⟩
  have hfew := few_records hparse
  obtain ⟨rs, -, htells, -, -⟩ | ⟨row, -, e, -, herr⟩ :=
    @foldlM_addRow header.length cols records [] (∅ : Totals) tallies_nil (by simp)
      (by rw [List.length_nil]; omega)
  · exact ⟨header, records, names, cols, rs, hparse, hnames, hcols, htells⟩
  · rw [List.drop_one, List.tail_cons, herr] at hloop
    cases hloop

/-! ## Failures -/

theorem refuses_foldlM {α β : Type} {f : α → β → Result α} (hf : ∀ a b, Refuses (f a b)) :
    ∀ {l : List β} {a : α}, Refuses (l.foldlM f a)
  | [], _ => refuses_ok
  | b :: l, a => by
    rw [List.foldlM_cons]
    exact refuses_bind (hf a b) fun _ _ => refuses_foldlM hf

theorem refuses_ite {α : Type} {c : Prop} [Decidable c] {x y : Result α} (hx : Refuses x)
    (hy : Refuses y) : Refuses (if c then x else y) := by
  split
  · exact hx
  · exact hy

theorem refuses_finishField {s : Scan} : Refuses s.finishField :=
  refuses_bind (refuses_refuseIf (by decide)) fun _ _ => refuses_ok

theorem refuses_finishRow {s : Scan} : Refuses s.finishRow :=
  refuses_bind (refuses_refuseIf (by decide)) fun _ _ => refuses_ok

theorem refuses_transition {s : Scan} {c : Char} : Refuses (s.transition c) := by
  unfold Scan.transition
  split
  all_goals first
    | exact refuses_ok
    | exact refuses_refuse (by decide)
    | exact refuses_bind refuses_finishField fun _ _ => refuses_ok
    | exact refuses_bind refuses_finishField fun _ _ =>
        refuses_bind refuses_finishRow fun _ _ => refuses_ok

theorem refuses_finish {s : Scan} : Refuses s.finish := by
  unfold Scan.finish
  refine refuses_bind (refuses_refuseIf (by decide)) fun _ _ => refuses_ite ?_ ?_
  · exact refuses_bind refuses_finishField fun _ _ => refuses_bind refuses_finishRow fun _ _ =>
      refuses_bind (refuses_refuseIf (by decide)) fun _ _ => refuses_ok
  · exact refuses_bind refuses_ok fun _ _ =>
      refuses_bind (refuses_refuseIf (by decide)) fun _ _ => refuses_ok

theorem refuses_parseCsv : Refuses (parseCsv bytes) :=
  refuses_bind (refuses_refuseIf (by decide)) fun _ _ =>
    refuses_bind (refuses_okOr (by decide)) fun _ _ =>
    refuses_bind (refuses_refuseIf (by decide)) fun _ _ =>
    refuses_bind (refuses_refuseIf (by decide)) fun _ _ =>
    refuses_bind (refuses_foldlM fun _ _ => refuses_bind refuses_transition fun _ _ =>
      refuses_bind (refuses_refuseIf (by decide)) fun _ _ => refuses_ok) fun _ _ =>
    refuses_finish

theorem refuses_findColumn {header : List String} {name : String} :
    Refuses (findColumn header name) := refuses_okOr (by decide)

theorem refuses_columns {header : List String} : Refuses (columns header) :=
  refuses_bind refuses_findColumn fun _ _ => refuses_bind refuses_findColumn fun _ _ =>
    refuses_bind refuses_findColumn fun _ _ => refuses_ok

theorem refuses_dateMonth {value : String} : Refuses (dateMonth value) := by
  have hdigit : invalidDigit ∈ refusals := by decide
  exact refuses_bind (refuses_refuseIf (by decide)) fun _ _ =>
    refuses_bind (refuses_okOr hdigit) fun _ _ => refuses_bind (refuses_okOr hdigit) fun _ _ =>
    refuses_bind (refuses_okOr hdigit) fun _ _ =>
    refuses_bind (refuses_refuseIf (by decide)) fun _ _ => refuses_ok

theorem refuses_cents {value : String} : Refuses (cents value) := by
  intro e h
  exact ⟨notExact, by decide, cents_error h⟩

/-- **A row that says no record is refused.** -/
theorem refuses_readRecord (hcols : cols.date < width ∧ cols.amount < width ∧ cols.currency < width) :
    Refuses (readRecord width cols row) := by
  have hread : ∀ {i : Nat} {u : Unit}, i < width →
      refuseIf (row.length != width) "ragged invoice CSV record" = .ok u →
        Refuses (expect row[i]? outOfBounds) := by
    intro i u hi hwidth
    rw [refuseIf_eq_ok, bne_eq_false_iff_eq] at hwidth
    exact refuses_expect (by simp [hwidth, hi])
  exact refuses_bind (refuses_refuseIf (by decide)) fun _ hwidth =>
    refuses_bind (hread hcols.1 hwidth) fun _ _ => refuses_bind refuses_dateMonth fun _ _ =>
    refuses_bind (hread hcols.2.1 hwidth) fun _ _ => refuses_bind refuses_cents fun _ _ =>
    refuses_bind (hread hcols.2.2 hwidth) fun _ _ =>
    refuses_bind (refuses_refuseIf (by decide)) fun _ _ => refuses_ok

/-- **The calculation fails with one of its refusals only.** -/
theorem refuses_calculate : Refuses (calculate sha256 bytes) := by
  refine refuses_bind refuses_parseCsv fun rows hparse => ?_
  obtain ⟨header, records, rfl⟩ : ∃ header records, rows = header :: records := by
    have htwo := (parseCsv_eq_ok.mp hparse).1.records
    cases rows with
    | nil => cases htwo
    | cons header records => exact ⟨header, records, rfl⟩
  refine refuses_bind (refuses_expect (by simp)) fun first hfirst => ?_
  obtain rfl : header = first := by
    rw [expect_eq_ok, List.head?_cons] at hfirst
    exact Option.some.inj hfirst
  refine refuses_bind (refuses_foldlM fun _ _ => refuses_bind
    (refuses_refuseIf (by decide)) fun _ _ => refuses_ok) fun names hnames =>
    refuses_bind refuses_columns fun cols hcols => ?_
  have hfew := few_records hparse
  obtain ⟨rs, t, htells, ht, hloop⟩ | ⟨row, -, e, herr, hloop⟩ :=
    @foldlM_addRow header.length cols records [] (∅ : Totals) tallies_nil (by simp)
      (by rw [List.length_nil]; omega)
  · rw [List.nil_append] at ht
    obtain ⟨groups, hgroups⟩ := groups_complete ht (htells.bounded hparse)
    rw [List.drop_one, List.tail_cons, hloop]
    change Refuses (t.toList.mapM group >>= _)
    rw [hgroups]
    exact refuses_ok
  · rw [List.drop_one, List.tail_cons, hloop]
    intro e' h
    cases h
    exact refuses_readRecord (Columns.within hcols) e herr

theorem not_overflow {m : String} (h : m ∈ refusals) : ¬ Overflow (.refused m) := by
  have hall : ∀ m ∈ refusals, m ∉ ["invoice count overflow", "invoice total overflow",
      "invoice amount overflow"] := by decide
  have hm := hall m h
  simpa [Overflow] using hm

/-- **No sum overflows.** -/
theorem calculate_not_overflow {e : Stop} (h : calculate sha256 bytes = .error e) :
    ¬ Overflow e := by
  obtain ⟨m, hm, rfl⟩ := refuses_calculate e h
  exact not_overflow hm

/-! ## The report -/

/-- The columns are those of these names. -/
structure Named (header : List String) (cols : Columns) : Prop where
  date : header[cols.date]? = some "invoice_date"
  amount : header[cols.amount]? = some "amount"
  currency : header[cols.currency]? = some "currency"

theorem columns_named {header : List String} (h : columns header = .ok cols) :
    Named header cols := by
  have hfind : ∀ {name n}, findColumn header name = .ok n → header[n]? = some name := by
    intro name n h
    obtain ⟨hlt, hname, -⟩ := List.findIdx?_eq_some_iff_getElem.mp (okOr_eq_ok.mp h)
    rw [List.getElem?_eq_getElem hlt, beq_iff_eq.mp hname]
  simp only [columns, bind_eq_ok, pure_eq_ok] at h
  obtain ⟨a, ha, b, hb, c, hc, rfl⟩ := h
  exact ⟨hfind ha, hfind hb, hfind hc⟩

/-- **What a row says**: the month of its date, its currency, and the amount that its text
denotes, in hundredths. -/
def Records (cols : Columns) (row : List String) (record : Key × Int) : Prop :=
  ∃ date amount, row[cols.date]? = some date ∧ row[cols.amount]? = some amount ∧
    row[cols.currency]? = some record.1.2 ∧ record.1.1 = String.ofList (date.toList.take 7) ∧
      Denotes amount (record.2 / 100)

theorem dateMonth_eq_ok {value month : String} (h : dateMonth value = .ok month) :
    month = String.ofList (value.toList.take 7) := by
  simp only [dateMonth, bind_eq_ok, pure_eq_ok] at h
  obtain ⟨_, -, _, -, _, -, _, -, _, -, rfl⟩ := h
  rfl

theorem readRecord_records (h : readRecord width cols row = .ok record) :
    Records cols row record := by
  obtain ⟨-, date, amount, hdate, hamount, hcode, hmonth, hvalue⟩ := readRecord_eq_ok h
  exact ⟨date, amount, hdate, hamount, hcode, dateMonth_eq_ok hmonth, (cents_exact hvalue).2⟩

/-- The order of the groups: by month, then by currency. -/
def Group.Before (g g' : Group) : Prop :=
  g.month < g'.month ∨ g.month = g'.month ∧ g.currency < g'.currency

theorem sorted_keys (totals : Totals) :
    totals.keys.Pairwise fun k k' => k.1 < k'.1 ∨ k.1 = k'.1 ∧ k.2 < k'.2 := by
  refine ExtTreeMap.ordered_keys.imp fun {a b} h => ?_
  rw [compareKeys_eq, Ordering.then_eq_lt] at h
  rcases h with h | ⟨heq, h⟩
  · exact .inl (Table.compare_eq_lt.mp h)
  · exact .inr ⟨Std.compare_eq_iff_eq.mp heq, Table.compare_eq_lt.mp h⟩

/-- A group with its count, and its total in hundredths. -/
def Group.Holds (g : Group) (invoices : Nat) (sum : Int) : Prop :=
  g.invoiceCount = invoices ∧ formattedCents sum = .ok g.total ∧ Denotes g.total (sum / 100)

theorem groups_hold {groups : List Group} (ht : Tallies totals rs)
    (hb : ∀ k, |Base.total rs k| < 2 ^ 127)
    (hgroups : totals.toList.mapM group = .ok groups) :
    groups.Pairwise Group.Before ∧
    (∀ k, (∃ g ∈ groups, (g.month, g.currency) = k) ↔ ∃ e ∈ rs, e.1 = k) ∧
    (∀ g ∈ groups, g.Holds (count rs (g.month, g.currency)) (total rs (g.month, g.currency))) ∧
    (groups.map Group.invoiceCount).sum = rs.length := by
  have hentry : ∀ {entry g}, entry ∈ totals.toList → group entry = .ok g →
      (g.month, g.currency) = entry.1 ∧
        g.Holds (count rs (g.month, g.currency)) (total rs (g.month, g.currency)) := by
    intro entry g he hg
    obtain ⟨-, hv⟩ := ht.entry.mp he
    obtain ⟨g', hg', hkey, hcount, htext, hdenotes⟩ :=
      @group_eq entry (by rw [hv]; exact hb entry.1)
    obtain rfl : g' = g := Except.ok.inj (hg'.symm.trans hg)
    rw [hv] at hcount htext hdenotes
    rw [← hkey] at hcount htext hdenotes
    exact ⟨hkey, hcount, htext, hdenotes⟩
  have hgroup : ∀ entry g, group entry = .ok g → (g.month, g.currency) = entry.1 ∧
      g.invoiceCount = entry.2.1 := by
    intro entry g hg
    simp only [group, bind_eq_ok, pure_eq_ok] at hg
    obtain ⟨text, -, rfl⟩ := hg
    exact ⟨rfl, rfl⟩
  have hkeys : groups.map (fun g => (g.month, g.currency)) = totals.keys := by
    rw [map_eq_of_mapM (fun e g hg => (hgroup e g hg).1) hgroups,
      ← ExtTreeMap.map_fst_toList_eq_keys]
  refine ⟨?_, fun k => ?_, fun g hg => ?_, ?_⟩
  · have hsorted := sorted_keys totals
    rw [← hkeys, List.pairwise_map] at hsorted
    exact hsorted
  · rw [← List.mem_map, hkeys, ht.mem_keys, List.mem_map]
  · obtain ⟨entry, he, hg⟩ := exists_of_mem_mapM hgroups hg
    exact (hentry he hg).2
  · rw [map_eq_of_mapM (fun e g hg => (hgroup e g hg).2) hgroups]
    exact ht.counts

/-- **Invoice totals are exact.** The groups of a report are in order, one for each month and
currency that occurs, with the count and the exact sum of its records; the order of the records
changes the digest only; no sum can overflow; and small amounts read back. -/
theorem invoice_totals_exact (sha256 : Bytes → Bytes) :
    (∀ bytes report, calculate sha256 bytes = .ok report →
      ∃ header records cols rs, parseCsv bytes = .ok (header :: records) ∧ Named header cols ∧
        List.Forall₂ (Records cols) records rs ∧
        report.groups.Pairwise Group.Before ∧
        (∀ k, (∃ g ∈ report.groups, (g.month, g.currency) = k) ↔ ∃ e ∈ rs, e.1 = k) ∧
        (∀ g ∈ report.groups,
          g.Holds (count rs (g.month, g.currency)) (total rs (g.month, g.currency))) ∧
        (report.groups.map Group.invoiceCount).sum = report.recordCount ∧
        report.recordCount = records.length ∧
        ∀ bytes' records', records'.Perm records → parseCsv bytes' = .ok (header :: records') →
          calculate sha256 bytes' = .ok { report with sourceSha256 := hex (sha256 bytes') }) ∧
    (∀ bytes e, calculate sha256 bytes = .error e → ¬ Overflow e) ∧
    ∀ v : Int, |v| < 10 ^ 14 → ∃ text, formattedCents v = .ok text ∧ cents text = .ok v := by
  refine ⟨fun bytes report h => ?_, fun bytes e => calculate_not_overflow, fun v => cents_formattedCents⟩
  obtain ⟨header, records, names, cols, rs, hparse, hnames, hcols, htells⟩ := calculate_eq_ok h
  obtain ⟨totals, groups, ht, hgroups, hreport⟩ :=
    calculate_says sha256 hparse hnames hcols htells
  obtain rfl := Except.ok.inj (h.symm.trans hreport)
  obtain ⟨hsorted, hkeys, hholds, hsum⟩ := groups_hold ht (htells.bounded hparse).total hgroups
  refine ⟨header, records, cols, rs, hparse, columns_named hcols,
    htells.imp fun _ _ => readRecord_records, hsorted, hkeys, hholds,
    hsum.trans htells.length_eq.symm, rfl, fun bytes' records' hperm hparse' => ?_⟩
  obtain ⟨rs', htells', hrs⟩ := List.perm_comp_forall₂ hperm htells
  obtain ⟨totals', groups', ht', hgroups', hreport'⟩ :=
    calculate_says sha256 hparse' hnames hcols htells'
  obtain rfl : totals' = totals := ht'.perm ht hrs
  obtain rfl : groups' = groups := Except.ok.inj (hgroups'.symm.trans hgroups)
  rw [hreport', hperm.length_eq]

example : calculate (fun _ => []) (bytesOf ("invoice_date,amount,currency\n2024-02-29,-1.5,USD\n" ++
    "2024-02-01,3.25,USD\n").toList) =
    .ok ⟨1, "invoice-summary-v1", "", 2, [⟨"2024-02", "USD", 2, "1.75"⟩]⟩ := by
  decide +kernel

end

end LumaOS.Calculation
