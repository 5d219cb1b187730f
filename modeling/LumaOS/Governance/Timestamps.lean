import LumaOS.Governance.ModelFormats
import LumaOS.Json.Reader
import LumaOS.Text.Datetime
import Mathlib.Tactic.IntervalCases

/-!
# UTC text and milliseconds

`utc_timestamp` (`model_trust.rs:133-158`) writes the milliseconds since 1970 as a date and a time of
day, and `timestamp` (`model_trust.rs:159-202`) reads them back. Each has its own formula for the
days of the Gregorian calendar: 400 years are an era of 146097 days, and a year starts in March.

* `civil_of_days`: the date of a day has that day.
* `timestamp_eq_ok`: what `timestamp` accepts, and its value.
* `timestamp_lt_iff`: accepted texts are ordered as their values are.
* `utcTimestamp_eq_ok`, `utcTimestamp_refused`: `utc_timestamp` up to the year 9999, and behind it.
-/

namespace LumaOS.Governance

open LumaOS.Base LumaOS.Text LumaOS.Json

/-! ## Writing -/

/-- An `i64` operation with the exact result `n`, which panics when `n` is not an `i64`. -/
def i64 (n : Int) : Result Int := expect (if -2 ^ 63 ≤ n ∧ n < 2 ^ 63 then some n else none) overflow

/-- The year of an era, counted from March, in which a day of the era falls. -/
def yearOfEra (doe : Int) : Result Int := do
  let a ← i64 (doe - doe.tdiv 1460)
  let b ← i64 (a + doe.tdiv 36524)
  let c ← i64 (b - doe.tdiv 146096)
  pure (c.tdiv 365)

/-- The date of a day counted from 1970-01-01. -/
def civilFromDays (days : Int) : Result (Int × Int × Int) := do
  let z ← i64 (days + 719468)
  let era := z / 146097
  let start ← i64 (era * 146097)
  let doe ← i64 (z - start)
  let yoe ← yearOfEra doe
  let years ← i64 (era * 400)
  let year ← i64 (yoe + years)
  let whole ← i64 (365 * yoe)
  let leaps ← i64 (whole + yoe.tdiv 4)
  let before ← i64 (leaps - yoe.tdiv 100)
  let doy ← i64 (doe - before)
  let mp := (5 * doy + 2).tdiv 153
  let day := doy - (153 * mp + 2).tdiv 5 + 1
  let month := mp + if mp < 10 then 3 else -9
  let year ← i64 (year + if month ≤ 2 then 1 else 0)
  pure (year, month, day)

/-- `{n:0w}` of an `i64`: the sign counts. -/
def paddedInt (w : Nat) (n : Int) : String :=
  if n < 0 then "-" ++ String.ofList (padded (w - 1) n.natAbs) else String.ofList (padded w n.natAbs)

/-- `format!("{year:04}-{month:02}-{day:02}T{:02}:{:02}:{:02}Z", ..)`. -/
def utcText (year month day hour minute second : Int) : String :=
  paddedInt 4 year ++ "-" ++ paddedInt 2 month ++ "-" ++ paddedInt 2 day ++ "T" ++
    paddedInt 2 hour ++ ":" ++ paddedInt 2 minute ++ ":" ++ paddedInt 2 second ++ "Z"

/-- `model_trust::utc_timestamp`. -/
def utcTimestamp (ms : Int64) : Result String := do
  refuseIf (ms < 0) "model decisions require positive protected UTC"
  let days := ms.toInt / 86400000
  let seconds := (ms.toInt % 86400000).tdiv 1000
  let (year, month, day) ← civilFromDays days
  let text := utcText year month day (seconds.tdiv 3600) ((seconds.tdiv 60).tmod 60)
    (seconds.tmod 60)
  let _ ← timestamp text
  pure text

/-! ## Days -/

/-- The days before a year that starts in March. -/
def yearDays (y : Int) : Int := 365 * y + y / 4 - y / 100 + y / 400

/-- The days before a month of such a year. -/
def monthStart (m : Int) : Int := (153 * m + 2) / 5

variable {year month day : Int}

/-- The year that starts in March. -/
def marchYear (year month : Int) : Int := if month ≤ 2 then year - 1 else year

/-- The month counted from March. -/
def marchMonth (month : Int) : Int := if month ≤ 2 then month + 9 else month - 3

theorem daysFromCivil_eq : daysFromCivil year month day =
    yearDays (marchYear year month) + monthStart (marchMonth month) + day - 1 - 719468 := by
  have hmonth : month + (if month > 2 then -3 else 9) = marchMonth month := by
    unfold marchMonth
    split <;> split <;> omega
  simp only [daysFromCivil, hmonth]
  change _ = yearDays (if month ≤ 2 then year - 1 else year) + _ + _ - _ - _
  generalize (if month ≤ 2 then year - 1 else year) = y
  unfold yearDays monthStart
  omega

/-- A month ends where the next one starts. -/
theorem monthStart_add (hm : 1 ≤ month ∧ month ≤ 12) (hd : day ≤ monthDays year month)
    (hfeb : month ≠ 2) :
    monthStart (marchMonth month) + day ≤ monthStart (marchMonth month + 1) := by
  obtain ⟨h1, h12⟩ := hm
  unfold monthStart marchMonth
  unfold monthDays at hd
  interval_cases month
  · simp at hd ⊢
    omega
  · exact absurd rfl hfeb
  all_goals
    simp at hd ⊢
    omega

/-- February ends with the year. -/
theorem yearDays_succ (y : Int) : yearDays (y + 1) - yearDays y = 337 + monthDays (y + 1) 2 := by
  unfold yearDays monthDays
  simp
  split <;> omega

theorem monthStart_le (hm : 1 ≤ month ∧ month ≤ 12) :
    0 ≤ monthStart (marchMonth month) ∧ monthStart (marchMonth month) ≤ 337 ∧
      (month ≠ 2 → monthStart (marchMonth month + 1) ≤ 337) := by
  unfold monthStart marchMonth
  split <;> omega

theorem two_le_monthDays (y : Int) : 28 ≤ monthDays y 2 := by
  unfold monthDays
  simp
  split <;> omega

/-- A day is in its year. -/
theorem day_lt_year (hm : 1 ≤ month ∧ month ≤ 12) (hd : day ≤ monthDays year month) :
    yearDays (marchYear year month) + monthStart (marchMonth month) + day - 1 <
      yearDays (marchYear year month + 1) := by
  have hlength := yearDays_succ (marchYear year month)
  have hleap := two_le_monthDays (marchYear year month + 1)
  obtain ⟨-, -, hnext⟩ := monthStart_le hm
  by_cases hfeb : month = 2
  · subst hfeb
    have hyear : marchYear year 2 + 1 = year := by simp [marchYear]
    have hstart : monthStart (marchMonth 2) = 337 := rfl
    rw [hyear] at hlength ⊢
    omega
  · have := monthStart_add hm hd hfeb
    have := hnext hfeb
    omega

theorem yearDays_mono {y y' : Int} (h : y ≤ y') : yearDays y ≤ yearDays y' := by
  unfold yearDays
  omega

/-- **A later date has a greater number.** -/
theorem daysFromCivil_lt {year' month' day' : Int} (hm : 1 ≤ month ∧ month ≤ 12)
    (hd : day ≤ monthDays year month) (hm' : 1 ≤ month' ∧ month' ≤ 12) (hd' : 1 ≤ day')
    (h : year < year' ∨ year = year' ∧ (month < month' ∨ month = month' ∧ day < day')) :
    daysFromCivil year month day < daysFromCivil year' month' day' := by
  have hlast := day_lt_year hm hd
  obtain ⟨hstart', -, -⟩ := monthStart_le hm'
  rw [daysFromCivil_eq, daysFromCivil_eq]
  by_cases hyear : marchYear year month < marchYear year' month'
  · have := @yearDays_mono (marchYear year month + 1) (marchYear year' month') hyear
    omega
  · have hsame : marchYear year month = marchYear year' month' := by
      unfold marchYear at hyear ⊢
      omega
    rw [hsame]
    by_cases hmonth : month = month'
    · have hy : year = year' := by
        rw [hmonth] at hsame
        unfold marchYear at hsame
        split at hsame <;> omega
      rw [hmonth]
      omega
    · have hlater : marchMonth month < marchMonth month' ∧ month ≠ 2 := by
        unfold marchYear at hsame
        unfold marchMonth
        omega
      have := monthStart_add hm hd hlater.2
      have : monthStart (marchMonth month + 1) ≤ monthStart (marchMonth month') := by
        unfold monthStart
        omega
      omega

/-! ## Dates -/

/-- What `yearOfEra` divides by 365. -/
def eraDays (doe : Int) : Int := doe - doe / 1460 + doe / 36524 - doe / 146096

theorem eraDays_mono {a b : Int} (_ : a ≤ b) (_ : 0 ≤ a) (_ : b ≤ 146096) :
    eraDays a ≤ eraDays b := by
  unfold eraDays
  omega

/-- The first day of each year of an era, and the day before it. -/
theorem eraDays_year : ∀ y : Fin 400, 365 * (y.val : Int) ≤ eraDays (yearDays y.val) ∧
    (0 < y.val → eraDays (yearDays y.val - 1) < 365 * (y.val : Int)) := by
  decide +kernel

theorem yearDays_nonneg {y : Int} (h : 0 ≤ y) : 0 ≤ yearDays y := by
  unfold yearDays
  omega

/-- **A day of an era is in the year that is computed for it.** -/
theorem eraDays_div {doe : Int} (h : 0 ≤ doe ∧ doe ≤ 146096) :
    (0 ≤ eraDays doe / 365 ∧ eraDays doe / 365 < 400) ∧
      yearDays (eraDays doe / 365) ≤ doe ∧ doe < yearDays (eraDays doe / 365 + 1) := by
  have hlow : 0 ≤ eraDays doe := eraDays_mono h.1 le_rfl h.2
  have hhigh : eraDays doe ≤ 145999 := eraDays_mono h.2 h.1 le_rfl
  obtain ⟨y, hy⟩ : ∃ y : Nat, eraDays doe / 365 = y :=
    ⟨(eraDays doe / 365).toNat, by omega⟩
  have hy400 : y < 400 := by omega
  rw [hy]
  refine ⟨by omega, ?_, ?_⟩
  · by_contra hnot
    have hpos : 0 < y := by
      rcases Nat.eq_zero_or_pos y with rfl | hpos
      · exact absurd h.1 hnot
      · exact hpos
    have hend : yearDays y ≤ 146096 := by
      have := @yearDays_mono y 399 (by omega)
      exact this.trans (by decide)
    have hmono := eraDays_mono (a := doe) (b := yearDays y - 1) (by omega) h.1 (by omega)
    have hlt : eraDays (yearDays y - 1) < 365 * (y : Int) := (eraDays_year ⟨y, hy400⟩).2 hpos
    omega
  · by_contra hnot
    by_cases hlast : y = 399
    · subst hlast
      exact hnot (lt_of_le_of_lt h.2 (by decide))
    · have hmono := eraDays_mono (a := yearDays (y + 1)) (b := doe) (by omega)
        (yearDays_nonneg (by omega)) h.2
      have := (eraDays_year ⟨y + 1, by omega⟩).1
      push_cast at this
      omega

theorem i64_eq {n : Int} (h : -2 ^ 63 ≤ n ∧ n < 2 ^ 63) : i64 n = .ok n := by
  rw [i64, if_pos h]
  rfl

theorem tdiv_of_nonneg {a : Int} (b : Int) (h : 0 ≤ a) : a.tdiv b = a / b :=
  Int.tdiv_eq_ediv_of_nonneg h

theorem ok_bind {α β : Type} {a : α} {f : α → Result β} : (Except.ok a : Result α) >>= f = f a := rfl

theorem i64_bind {β : Type} {n : Int} {f : Int → Result β} (h : -2 ^ 63 ≤ n ∧ n < 2 ^ 63) :
    i64 n >>= f = f n := by
  rw [i64_eq h]
  rfl

theorem yearOfEra_eq {doe : Int} (h : 0 ≤ doe ∧ doe ≤ 146096) :
    yearOfEra doe = .ok (eraDays doe / 365) := by
  obtain ⟨hpos, hle⟩ := h
  have hlow : 0 ≤ eraDays doe := eraDays_mono hpos le_rfl hle
  simp only [yearOfEra, tdiv_of_nonneg _ hpos]
  rw [i64_bind, i64_bind, i64_bind]
  · change pure ((eraDays doe).tdiv 365) = _
    rw [tdiv_of_nonneg _ hlow]
    rfl
  · omega
  · omega
  · omega

/-- The date of a day of a year that starts in March. -/
theorem civil_of_year {y doy : Int} (h : 0 ≤ doy ∧ doy < yearDays (y + 1) - yearDays y) :
    let mp := (5 * doy + 2) / 153
    let day := doy - (153 * mp + 2) / 5 + 1
    let month := mp + if mp < 10 then 3 else -9
    let year := y + if month ≤ 2 then 1 else 0
    (1 ≤ month ∧ month ≤ 12) ∧ (1 ≤ day ∧ day ≤ monthDays year month) ∧
      marchYear year month = y ∧ monthStart (marchMonth month) + day - 1 = doy := by
  rw [yearDays_succ] at h
  have hfeb : monthDays (y + 1) 2 ≤ 29 := by
    unfold monthDays
    simp
    split <;> omega
  intro mp
  have hmp : 153 * mp ≤ 5 * doy + 2 ∧ 5 * doy + 2 < 153 * mp + 153 := by
    unfold mp
    omega
  have hrange : 0 ≤ mp ∧ mp ≤ 11 := by omega
  obtain ⟨h0, h11⟩ := hrange
  clear_value mp
  interval_cases mp
  all_goals
    simp [monthDays, marchYear, monthStart, marchMonth] at h ⊢
    omega

/-- **The date of a day has that day**, and no operation leaves the `i64` range. -/
theorem civil_of_days {days : Int} (h : 0 ≤ days ∧ days < 2 ^ 40) :
    ∃ year month day, civilFromDays days = .ok (year, month, day) ∧ (1 ≤ month ∧ month ≤ 12) ∧
      (1 ≤ day ∧ day ≤ monthDays year month) ∧ daysFromCivil year month day = days := by
  obtain ⟨h0, h40⟩ := h
  obtain ⟨era, hera⟩ : ∃ era, era = (days + 719468) / 146097 := ⟨_, rfl⟩
  obtain ⟨doe, hdoe⟩ : ∃ doe, doe = days + 719468 - era * 146097 := ⟨_, rfl⟩
  obtain ⟨yoe, hyoe⟩ : ∃ yoe, yoe = eraDays doe / 365 := ⟨_, rfl⟩
  have hin : 0 ≤ doe ∧ doe ≤ 146096 := by omega
  obtain ⟨⟨hyoe0, hyoe400⟩, hstart, hend⟩ := eraDays_div hin
  rw [← hyoe] at hyoe0 hyoe400 hstart hend
  obtain ⟨doy, hdoy⟩ : ∃ doy, doy = doe - (365 * yoe + yoe / 4 - yoe / 100) := ⟨_, rfl⟩
  have hwhole : doy = doe - yearDays yoe := by
    unfold yearDays
    omega
  -- an era is a whole number of leap cycles
  have hcycle : ∀ y, yearDays (y + era * 400) = yearDays y + era * 146097 := fun y => by
    unfold yearDays
    omega
  have hyear : 0 ≤ doy ∧ doy < yearDays (yoe + era * 400 + 1) - yearDays (yoe + era * 400) := by
    rw [show yoe + era * 400 + 1 = yoe + 1 + era * 400 by omega, hcycle, hcycle]
    omega
  have hdoy366 : doy < 366 := by
    have := yearDays_succ (yoe + era * 400)
    have : monthDays (yoe + era * 400 + 1) 2 ≤ 29 := by
      unfold monthDays
      simp
      split <;> omega
    omega
  obtain ⟨hmonth, hday, hmarch, hdays⟩ := civil_of_year hyear
  refine ⟨_, _, _, ?_, hmonth, hday, ?_⟩
  · simp only [civilFromDays]
    rw [i64_bind (by omega), ← hera, i64_bind (by omega), i64_bind (by omega), ← hdoe,
      yearOfEra_eq hin, ← hyoe]
    change (i64 (era * 400) >>= _) = _
    simp only [tdiv_of_nonneg _ hyoe0]
    rw [i64_bind (by omega), i64_bind (by omega), i64_bind (by omega), i64_bind (by omega),
      i64_bind (by omega), i64_bind (by omega), ← hdoy]
    rw [tdiv_of_nonneg _ (by omega : 0 ≤ 5 * doy + 2),
      tdiv_of_nonneg _ (by omega : 0 ≤ 153 * ((5 * doy + 2) / 153) + 2), i64_bind]
    · rfl
    · split <;> omega
  · rw [daysFromCivil_eq, hmarch, hcycle]
    omega

/-! ## Bytes -/

theorem toUTF8_toList (s : String) : s.toUTF8.data.toList = bytesOf s.toList := by
  have h : s.toUTF8 = (s.toList.flatMap String.utf8EncodeChar).toByteArray :=
    String.utf8Encode_toList.symm
  rw [bytesOf, h, List.toList_data_toByteArray]

/-- The byte of a digit. -/
theorem isDigit_iff {c : Char} : c.isDigit = true ↔ 48 ≤ c.toNat ∧ c.toNat ≤ 57 := by
  simp only [Char.isDigit, Bool.and_eq_true, decide_eq_true_eq]
  exact Iff.rfl

theorem bytesOf_digits : ∀ {cs : List Char}, (∀ c ∈ cs, c.isDigit = true) →
    bytesOf cs = cs.map fun c => UInt8.ofNat c.toNat
  | [], _ => rfl
  | c :: cs, h => by
    obtain ⟨hc, hcs⟩ := List.forall_mem_cons.mp h
    have := isDigit_iff.mp hc
    rw [bytesOf_cons (by omega), bytesOf_digits hcs, List.map_cons]

theorem foldl_bytesOf : ∀ {cs : List Char} {n : Nat}, (∀ c ∈ cs, c.isDigit = true) →
    (bytesOf cs).foldl (fun n d => 10 * n + (d.toNat - 48)) n = Nat.ofDigitChars 10 cs n
  | [], _, _ => rfl
  | c :: cs, n, h => by
    obtain ⟨hc, hcs⟩ := List.forall_mem_cons.mp h
    have hrange := isDigit_iff.mp hc
    rw [bytesOf_cons (by omega), List.foldl_cons, foldl_bytesOf hcs, Nat.ofDigitChars_cons,
      UInt8.toNat_ofNat', Nat.mod_eq_of_lt (by omega)]
    rfl

/-- Bytes of digits are those of characters. -/
theorem exists_digits {field : Bytes} (h : ∀ x ∈ field, 48 ≤ x.toNat ∧ x.toNat ≤ 57) :
    ∃ cs : List Char, (∀ c ∈ cs, c.isDigit = true) ∧ bytesOf cs = field := by
  induction field with
  | nil => exact ⟨[], fun c hc => absurd hc List.not_mem_nil, rfl⟩
  | cons x field ih =>
    obtain ⟨hx, hfield⟩ := List.forall_mem_cons.mp h
    obtain ⟨cs, hcs, rfl⟩ := ih hfield
    have hchar : (Char.ofNat x.toNat).toNat = x.toNat := toNat_ofNat (by omega)
    refine ⟨Char.ofNat x.toNat :: cs, List.forall_mem_cons.mpr ⟨?_, hcs⟩, ?_⟩
    · rw [isDigit_iff, hchar]
      exact hx
    · rw [bytesOf_cons (by omega), hchar, UInt8.ofNat_toNat]

theorem length_bytesOf {cs : List Char} (h : ∀ c ∈ cs, c.isDigit = true) :
    (bytesOf cs).length = cs.length := by
  rw [bytesOf_digits h, List.length_map]

/-- **A field of digits.** -/
theorem timestampNumber_eq_ok {b : Bytes} {start finish : Nat} {n : Int}
    (h : start ≤ finish) (hb : finish ≤ b.length) : timestampNumber b start finish = .ok n ↔
      ∃ k < 10 ^ (finish - start), (b.drop start).take (finish - start) =
        bytesOf (digits (finish - start) k) ∧ n = k := by
  have hlength : ((b.drop start).take (finish - start)).length = finish - start := by
    rw [List.length_take, List.length_drop]
    omega
  simp only [timestampNumber, bind_eq_ok, pure_eq_ok, refuseIf_eq_ok, Bool.not_eq_false',
    List.all_eq_true, Bool.and_eq_true, decide_eq_true_eq]
  generalize (b.drop start).take (finish - start) = field at hlength ⊢
  generalize finish - start = w at hlength ⊢
  constructor
  · rintro ⟨-, hdigits, rfl⟩
    obtain ⟨cs, hcs, rfl⟩ := exists_digits hdigits
    rw [length_bytesOf hcs] at hlength
    obtain ⟨hlt, hsame⟩ := digits_ofDigits hlength hcs
    exact ⟨ofDigits cs, hlt, by rw [hsame], by rw [foldl_bytesOf hcs]; rfl⟩
  · rintro ⟨k, hk, rfl, rfl⟩
    have hall : ∀ c ∈ digits w k, c.isDigit = true := fun c hc => isDigit_digits hc
    refine ⟨(), fun x hx => ?_, ?_⟩
    · rw [bytesOf_digits hall] at hx
      obtain ⟨c, hc, rfl⟩ := List.mem_map.mp hx
      have := isDigit_iff.mp (hall c hc)
      rw [UInt8.toNat_ofNat', Nat.mod_eq_of_lt (by omega)]
      exact this
    · rw [foldl_bytesOf hall]
      exact congrArg _ (ofDigits_digits hk)

/-! ## Texts -/

theorem monthDays_eq_daysIn {year month : Nat} (h : 1 ≤ month ∧ month ≤ 12) :
    monthDays year month = daysIn year month := by
  obtain ⟨h1, h12⟩ := h
  interval_cases month
  case «2» =>
    have hleap : ((year : Int) % 4 == 0 && ((year : Int) % 100 != 0 || (year : Int) % 400 == 0)) =
        decide (year % 4 = 0 ∧ (year % 100 ≠ 0 ∨ year % 400 = 0)) := by
      rw [Bool.eq_iff_iff]
      simp only [Bool.and_eq_true, Bool.or_eq_true, beq_iff_eq, bne_iff_ne, decide_eq_true_eq]
      omega
    have hmodel : monthDays year 2 = if ((year : Int) % 4 == 0 && ((year : Int) % 100 != 0 ||
        (year : Int) % 400 == 0)) = true then 29 else 28 := rfl
    rw [Nat.cast_ofNat, hmodel, hleap, daysIn, if_pos rfl]
    simp only [decide_eq_true_eq]
    split <;> rfl
  all_goals rfl

/-- A Gregorian date and a time of day. -/
structure DateTime where
  year : Nat
  month : Nat
  day : Nat
  hour : Nat
  minute : Nat
  second : Nat
  years : 1 ≤ year ∧ year ≤ 9999
  months : 1 ≤ month ∧ month ≤ 12
  days : 1 ≤ day ∧ day ≤ daysIn year month
  times : hour ≤ 23 ∧ minute ≤ 59 ∧ second ≤ 59

namespace DateTime

/-- `YYYY-MM-DDThh:mm:ssZ`. -/
def chars (d : DateTime) : List Char :=
  digits 4 d.year ++ '-' :: (digits 2 d.month ++ '-' :: (digits 2 d.day ++ 'T' ::
    (digits 2 d.hour ++ ':' :: (digits 2 d.minute ++ ':' :: (digits 2 d.second ++ ['Z'])))))

def text (d : DateTime) : String := String.ofList d.chars

theorem day_le (d : DateTime) : (d.day : Int) ≤ monthDays d.year d.month := by
  rw [monthDays_eq_daysIn d.months]
  exact_mod_cast d.days.2

/-- The milliseconds since 1970. -/
def instant (d : DateTime) : Int :=
  (daysFromCivil d.year d.month d.day * 86400 + d.hour * 3600 + d.minute * 60 + d.second) * 1000

end DateTime

/-- The fields of a timestamp and the characters between them. -/
theorem bytes_split {b : Bytes} (h : b.length = 20) :
    b = (b.drop 0).take 4 ++ b.getD 4 0 :: ((b.drop 5).take 2 ++ b.getD 7 0 ::
      ((b.drop 8).take 2 ++ b.getD 10 0 :: ((b.drop 11).take 2 ++ b.getD 13 0 ::
        ((b.drop 14).take 2 ++ b.getD 16 0 :: ((b.drop 17).take 2 ++ [b.getD 19 0]))))) := by
  match b, h with
  | [_, _, _, _, _, _, _, _, _, _, _, _, _, _, _, _, _, _, _, _], _ => rfl

/-- The bytes of a timestamp. -/
def stamp (year month day hour minute second : Bytes) : Bytes :=
  year ++ 45 :: (month ++ 45 :: (day ++ 84 :: (hour ++ 58 :: (minute ++ 58 :: (second ++ [90])))))

theorem stamp_fields {year month day hour minute second : Bytes} (hy : year.length = 4)
    (hm : month.length = 2) (hd : day.length = 2) (hh : hour.length = 2) (hn : minute.length = 2)
    (hs : second.length = 2) :
    let b := stamp year month day hour minute second
    (b.length = 20 ∧ b.getD 4 0 = 45 ∧ b.getD 7 0 = 45 ∧ b.getD 10 0 = 84 ∧ b.getD 13 0 = 58 ∧
      b.getD 16 0 = 58 ∧ b.getD 19 0 = 90) ∧
      (b.drop 0).take 4 = year ∧ (b.drop 5).take 2 = month ∧ (b.drop 8).take 2 = day ∧
        (b.drop 11).take 2 = hour ∧ (b.drop 14).take 2 = minute ∧ (b.drop 17).take 2 = second := by
  match year, hy with
  | [_, _, _, _], _ =>
    obtain ⟨_, _, rfl⟩ := List.length_eq_two.mp hm
    obtain ⟨_, _, rfl⟩ := List.length_eq_two.mp hd
    obtain ⟨_, _, rfl⟩ := List.length_eq_two.mp hh
    obtain ⟨_, _, rfl⟩ := List.length_eq_two.mp hn
    obtain ⟨_, _, rfl⟩ := List.length_eq_two.mp hs
    exact ⟨⟨rfl, rfl, rfl, rfl, rfl, rfl, rfl⟩, rfl, rfl, rfl, rfl, rfl, rfl⟩

theorem length_field (w n : Nat) : (bytesOf (digits w n)).length = w := by
  rw [length_bytesOf fun c hc => isDigit_digits hc, length_digits]

theorem DateTime.bytes (d : DateTime) : bytesOf d.chars =
    stamp (bytesOf (digits 4 d.year)) (bytesOf (digits 2 d.month)) (bytesOf (digits 2 d.day))
      (bytesOf (digits 2 d.hour)) (bytesOf (digits 2 d.minute)) (bytesOf (digits 2 d.second)) := by
  simp only [DateTime.chars, bytesOf_append]
  rw [bytesOf_cons (by decide), bytesOf_append, bytesOf_cons (by decide), bytesOf_append,
    bytesOf_cons (by decide), bytesOf_append, bytesOf_cons (by decide), bytesOf_append,
    bytesOf_cons (by decide), bytesOf_append]
  rfl

theorem month_of_monthDays {year month day : Int} (h1 : 1 ≤ day) (h : day ≤ monthDays year month) :
    1 ≤ month ∧ month ≤ 12 := by
  by_contra hnot
  have hzero : monthDays year month = 0 := by
    unfold monthDays
    simp only [Bool.or_eq_true, beq_iff_eq]
    rw [if_neg (by omega), if_neg (by omega), if_neg (by omega)]
  omega

theorem monthDays_le (year month : Int) : monthDays year month ≤ 31 := by
  unfold monthDays
  dsimp only
  split
  · decide
  · split
    · decide
    · split
      · split <;> decide
      · decide

theorem DateTime.day_lt (d : DateTime) : d.day < 100 := by
  have hday := d.day_le
  have hmax := monthDays_le d.year d.month
  omega

/-- **What `timestamp` accepts, and its value**: the dates and times of the years 1 to 9999. -/
theorem timestamp_eq_ok {text : String} {v : Int} :
    timestamp text = .ok v ↔ ∃ d : DateTime, d.text = text ∧ d.instant = v := by
  simp only [timestamp, bind_eq_ok, pure_eq_ok, refuseIf_eq_ok, Bool.or_eq_false_iff,
    bne_eq_false_iff_eq, decide_eq_false_iff_not, not_lt, toUTF8_toList]
  constructor
  · rintro ⟨-, ⟨⟨⟨⟨⟨⟨hlength, h4⟩, h7⟩, h10⟩, h13⟩, h16⟩, h19⟩, year, hy, month, hm, day, hd, hour, hh,
      minute, hn, second, hs, -, ⟨⟨⟨⟨⟨hyear, hday⟩, hlast⟩, hhour⟩, hminute⟩, hsecond⟩, rfl⟩
    obtain ⟨b, hb⟩ : ∃ b, b = bytesOf text.toList := ⟨_, rfl⟩
    rw [← hb] at hlength h4 h7 h10 h13 h16 h19 hy hm hd hh hn hs
    have hsplit := bytes_split hlength
    obtain ⟨y, hylt, (atYear : (b.drop 0).take 4 = bytesOf (digits 4 y)), rfl⟩ :=
      (timestampNumber_eq_ok (by decide) (by omega)).mp hy
    obtain ⟨m, -, (atMonth : (b.drop 5).take 2 = bytesOf (digits 2 m)), rfl⟩ :=
      (timestampNumber_eq_ok (by decide) (by omega)).mp hm
    obtain ⟨d, -, (atDay : (b.drop 8).take 2 = bytesOf (digits 2 d)), rfl⟩ :=
      (timestampNumber_eq_ok (by decide) (by omega)).mp hd
    obtain ⟨h, -, (atHour : (b.drop 11).take 2 = bytesOf (digits 2 h)), rfl⟩ :=
      (timestampNumber_eq_ok (by decide) (by omega)).mp hh
    obtain ⟨n, -, (atMinute : (b.drop 14).take 2 = bytesOf (digits 2 n)), rfl⟩ :=
      (timestampNumber_eq_ok (by decide) (by omega)).mp hn
    obtain ⟨s, -, (atSecond : (b.drop 17).take 2 = bytesOf (digits 2 s)), rfl⟩ :=
      (timestampNumber_eq_ok (by decide) (by omega)).mp hs
    have hmonths := month_of_monthDays hday hlast
    have hyears : y < 10000 := hylt
    have hyears' : 1 ≤ y ∧ y ≤ 9999 := by omega
    have hmonths' : 1 ≤ m ∧ m ≤ 12 := by omega
    rw [monthDays_eq_daysIn hmonths'] at hlast
    refine ⟨⟨y, m, d, h, n, s, hyears', hmonths', by omega, by omega⟩, ?_, rfl⟩
    apply String.toList_inj.mp
    rw [DateTime.text, String.toList_ofList]
    apply bytesOf_inj
    rw [DateTime.bytes, ← hb, hsplit, atYear, atMonth, atDay, atHour, atMinute, atSecond, h4, h7, h10, h13, h16, h19]
    rfl
  · rintro ⟨d, rfl, rfl⟩
    rw [DateTime.text, String.toList_ofList, DateTime.bytes]
    obtain ⟨⟨hlength, h4, h7, h10, h13, h16, h19⟩, hy, hm, hd, hh, hn, hs⟩ :=
      stamp_fields (length_field 4 d.year) (length_field 2 d.month) (length_field 2 d.day)
        (length_field 2 d.hour) (length_field 2 d.minute) (length_field 2 d.second)
    have hyears := d.years
    have hmonths := d.months
    have hday := d.day_lt
    have hfirst := d.days.1
    have htimes := d.times
    refine ⟨(), ⟨⟨⟨⟨⟨⟨hlength, h4⟩, h7⟩, h10⟩, h13⟩, h16⟩, h19⟩,
      d.year, (timestampNumber_eq_ok (by decide) (by omega)).mpr ⟨_, ?_, hy, rfl⟩,
      d.month, (timestampNumber_eq_ok (by decide) (by omega)).mpr ⟨_, ?_, hm, rfl⟩,
      d.day, (timestampNumber_eq_ok (by decide) (by omega)).mpr ⟨_, ?_, hd, rfl⟩,
      d.hour, (timestampNumber_eq_ok (by decide) (by omega)).mpr ⟨_, ?_, hh, rfl⟩,
      d.minute, (timestampNumber_eq_ok (by decide) (by omega)).mpr ⟨_, ?_, hn, rfl⟩,
      d.second, (timestampNumber_eq_ok (by decide) (by omega)).mpr ⟨_, ?_, hs, rfl⟩, (),
      ⟨⟨⟨⟨⟨by omega, by omega⟩, d.day_le⟩, by omega⟩, by omega⟩, by omega⟩, rfl⟩
    all_goals omega

namespace DateTime

/-! ## Order -/

/-- A number that is as late as the date and time is. -/
def key (d : DateTime) : Nat :=
  ((((d.year * 13 + d.month) * 100 + d.day) * 24 + d.hour) * 60 + d.minute) * 60 + d.second

variable {d e : DateTime}

theorem text_lt_iff : d.text < e.text ↔ d.key < e.key := by
  have hy := d.years
  have hy' := e.years
  have hm := d.months
  have hm' := e.months
  have hd := d.day_lt
  have hd' := e.day_lt
  have ht := d.times
  have ht' := e.times
  have hlength : ∀ w m n, (digits w m).length = (digits w n).length := fun w m n => by
    rw [length_digits, length_digits]
  have hsame : ∀ {w m n}, m < 10 ^ w → n < 10 ^ w → (digits w m = digits w n ↔ m = n) :=
    fun hm hn => ⟨digits_inj hm hn, congrArg _⟩
  rw [String.lt_iff, text, text, String.toList_ofList, String.toList_ofList, chars, chars]
  simp only [append_lt_append (hlength _ _ _), List.cons_lt_cons_iff, Char.lt_irrefl, false_or,
    true_and, List.lt_irrefl, and_false, or_false]
  rw [digits_lt (by omega) (by omega), digits_lt (by omega) (by omega),
    digits_lt (by omega) (by omega), digits_lt (by omega) (by omega),
    digits_lt (by omega) (by omega), digits_lt (by omega) (by omega),
    hsame (by omega) (by omega), hsame (by omega) (by omega), hsame (by omega) (by omega),
    hsame (by omega) (by omega), hsame (by omega) (by omega)]
  unfold key
  omega

theorem key_injective (h : d.key = e.key) : d = e := by
  have hd := d.day_lt
  have hd' := e.day_lt
  obtain ⟨y, m, x, hh, n, s, hy, hm, hx, ht⟩ := d
  obtain ⟨y', m', x', hh', n', s', hy', hm', hx', ht'⟩ := e
  simp only [key] at *
  simp only [mk.injEq]
  omega

theorem instant_lt_of_key (h : d.key < e.key) : d.instant < e.instant := by
  have hd := d.day_lt
  have hd' := e.day_lt
  have hm := d.months
  have hm' := e.months
  have ht := d.times
  have ht' := e.times
  unfold key at h
  have hdate : (d.year < e.year ∨ d.year = e.year ∧ (d.month < e.month ∨ d.month = e.month ∧
      d.day < e.day)) ∨ d.year = e.year ∧ d.month = e.month ∧ d.day = e.day := by omega
  unfold instant
  rcases hdate with hdate | ⟨hy, hm, hx⟩
  · have hfirst := e.days.1
    have := @daysFromCivil_lt d.year d.month d.day e.year e.month e.day (by omega) d.day_le
      (by omega) (by omega) (by omega)
    omega
  · rw [hy, hm, hx] at h ⊢
    omega

theorem instant_lt_iff : d.instant < e.instant ↔ d.key < e.key := by
  refine ⟨fun h => ?_, instant_lt_of_key⟩
  rcases Nat.lt_trichotomy d.key e.key with hlt | heq | hgt
  · exact hlt
  · rw [key_injective heq] at h
    exact absurd h (lt_irrefl _)
  · exact absurd h (lt_asymm (instant_lt_of_key hgt))

theorem instant_injective (h : d.instant = e.instant) : d = e := by
  rcases Nat.lt_trichotomy d.key e.key with hlt | heq | hgt
  · exact absurd h (instant_lt_of_key hlt).ne
  · exact key_injective heq
  · exact absurd h (instant_lt_of_key hgt).ne'

end DateTime

/-! ## Writing and reading back -/

/-- The milliseconds at which the year 10000 starts. -/
def lastInstant : Int := 253402300800000

theorem paddedInt_eq_digits {w n : Nat} (hw : 0 < w) (h : n < 10 ^ w) :
    paddedInt w n = String.ofList (digits w n) := by
  have hn : ¬ (n : Int) < 0 := by omega
  rw [paddedInt, if_neg hn, Int.natAbs_natCast, padded_eq_digits hw h]

theorem DateTime.utcText_eq (d : DateTime) :
    utcText d.year d.month d.day d.hour d.minute d.second = d.text := by
  have hy := d.years
  have hm := d.months
  have hd := d.day_lt
  have ht := d.times
  unfold utcText
  rw [paddedInt_eq_digits (by decide) (by omega), paddedInt_eq_digits (by decide) (by omega),
    paddedInt_eq_digits (by decide) (by omega), paddedInt_eq_digits (by decide) (by omega),
    paddedInt_eq_digits (by decide) (by omega), paddedInt_eq_digits (by decide) (by omega)]
  apply String.toList_inj.mp
  simp only [String.toList_append, String.toList_ofList, text, chars, List.append_assoc]
  rfl

theorem length_le_utf8 : ∀ cs : List Char, cs.length ≤ (bytesOf cs).length
  | [] => Nat.le_refl 0
  | c :: cs => by
    have hc : 1 ≤ (String.utf8EncodeChar c).length := by
      rw [String.length_utf8EncodeChar]
      exact c.utf8Size_pos
    have := length_le_utf8 cs
    rw [bytesOf, List.flatMap_cons, List.length_append, List.length_cons]
    change _ ≤ _ + (bytesOf cs).length
    omega

/-- A longer text is refused. -/
theorem timestamp_refused {text : String} (h : 20 < text.toList.length) :
    timestamp text = refuse "model timestamps require exact second-precision UTC" := by
  have hlength := length_le_utf8 text.toList
  have hne : ((bytesOf text.toList).length != 20) = true := by
    rw [bne_iff_ne]
    omega
  simp only [timestamp, toUTF8_toList, hne, Bool.true_or]
  rfl

theorem length_utcText {year month day hour minute second : Int} (h : 10000 ≤ year) :
    20 < (utcText year month day hour minute second).toList.length := by
  have hyear : 4 < (paddedInt 4 year).toList.length := by
    rw [paddedInt, if_neg (by omega), String.toList_ofList]
    exact length_padded (by omega)
  have htwo : ∀ n, 2 ≤ (paddedInt 2 n).toList.length := fun n => by
    unfold paddedInt
    split
    · have hdash : ("-" ++ String.ofList (padded 1 n.natAbs)).toList = '-' :: padded 1 n.natAbs := by
        rw [String.toList_append]
        exact congrArg ('-' :: ·) String.toList_ofList
      have := @le_length_padded 1 n.natAbs
      rw [hdash, List.length_cons]
      omega
    · rw [String.toList_ofList]
      exact le_length_padded
  have := htwo month
  have := htwo day
  have := htwo hour
  have := htwo minute
  have := htwo second
  have hsep : "-".toList.length = 1 ∧ "T".toList.length = 1 ∧ ":".toList.length = 1 ∧
      "Z".toList.length = 1 := ⟨rfl, rfl, rfl, rfl⟩
  simp only [utcText, String.toList_append, List.length_append]
  omega

/-- What `utc_timestamp` computes before it reads its text back. -/
theorem utcTimestamp_eq {ms : Int64} (h : 0 ≤ ms.toInt) :
    ∃ year month day hour minute second : Int, (1970 ≤ year ∧ (1 ≤ month ∧ month ≤ 12) ∧
      (1 ≤ day ∧ day ≤ monthDays year month)) ∧ (0 ≤ hour ∧ hour ≤ 23) ∧
      (0 ≤ minute ∧ minute ≤ 59) ∧ (0 ≤ second ∧ second ≤ 59) ∧
      (daysFromCivil year month day * 86400 + hour * 3600 + minute * 60 + second) * 1000 =
        ms.toInt - ms.toInt % 1000 ∧
      utcTimestamp ms = (do
        let _ ← timestamp (utcText year month day hour minute second)
        pure (utcText year month day hour minute second)) := by
  have hmax := ms.toInt_lt
  obtain ⟨year, month, day, hcivil, hmonth, hday, hdays⟩ :=
    @civil_of_days (ms.toInt / 86400000) ⟨by omega, by omega⟩
  have hyear : 1970 ≤ year := by
    by_contra hlt
    have hbefore := @daysFromCivil_lt year month day 1970 1 1 hmonth hday.2 (by decide) (by decide)
      (Or.inl (by omega))
    have hepoch : daysFromCivil 1970 1 1 = 0 := by decide
    omega
  have hnot : (decide (ms < 0)) = false := by
    rw [decide_eq_false_iff_not, Int64.lt_iff_toInt_lt]
    exact not_lt.mpr h
  have hseconds : 0 ≤ ms.toInt % 86400000 / 1000 := by omega
  refine ⟨year, month, day, ms.toInt % 86400000 / 1000 / 3600, ms.toInt % 86400000 / 1000 / 60 % 60,
    ms.toInt % 86400000 / 1000 % 60, ⟨hyear, hmonth, hday⟩, by omega, by omega, by omega, by omega, ?_⟩
  have hday0 : 0 ≤ ms.toInt % 86400000 := by omega
  have hminutes : 0 ≤ ms.toInt % 86400000 / 1000 / 60 := by omega
  have hgate : refuseIf (decide (ms < 0)) "model decisions require positive protected UTC" = .ok () :=
    refuseIf_eq_ok.mpr hnot
  unfold utcTimestamp
  rw [hgate, ok_bind]
  simp only [hcivil, ok_bind, tdiv_of_nonneg _ hday0, tdiv_of_nonneg _ hseconds,
    Int.tmod_eq_emod_of_nonneg hminutes, Int.tmod_eq_emod_of_nonneg hseconds]

/-- **Up to the year 9999** the text reads back as the second it was written in. -/
theorem utcTimestamp_eq_ok {ms : Int64} (h : 0 ≤ ms.toInt ∧ ms.toInt < lastInstant) :
    ∃ text, utcTimestamp ms = .ok text ∧ timestamp text = .ok (ms.toInt - ms.toInt % 1000) := by
  obtain ⟨year, month, day, hour, minute, second, ⟨hyear, hmonth, hday⟩, hhour, hminute, hsecond, hms,
    heq⟩ := utcTimestamp_eq h.1
  have hlast : year ≤ 9999 := by
    by_contra hlt
    have hafter := @daysFromCivil_lt 9999 12 31 year month day (by decide) (by decide) hmonth hday.1
      (Or.inl (by omega))
    have hend : daysFromCivil 9999 12 31 = 2932896 := by decide
    have := h.2
    unfold lastInstant at this
    omega
  obtain ⟨y, rfl⟩ := Int.eq_ofNat_of_zero_le (show 0 ≤ year by omega)
  obtain ⟨m, rfl⟩ := Int.eq_ofNat_of_zero_le (show 0 ≤ month by omega)
  obtain ⟨x, rfl⟩ := Int.eq_ofNat_of_zero_le (show 0 ≤ day by omega)
  obtain ⟨hh, rfl⟩ := Int.eq_ofNat_of_zero_le hhour.1
  obtain ⟨n, rfl⟩ := Int.eq_ofNat_of_zero_le hminute.1
  obtain ⟨s, rfl⟩ := Int.eq_ofNat_of_zero_le hsecond.1
  have hmonth' : 1 ≤ m ∧ m ≤ 12 := by omega
  rw [monthDays_eq_daysIn hmonth'] at hday
  have hread : timestamp (utcText y m x hh n s) = .ok (ms.toInt - ms.toInt % 1000) :=
    timestamp_eq_ok.mpr ⟨⟨y, m, x, hh, n, s, by omega, hmonth', by omega, by omega⟩,
      (DateTime.utcText_eq _).symm, hms⟩
  exact ⟨_, heq.trans (by rw [hread]; rfl), hread⟩

/-- **Behind it** there is no text. -/
theorem utcTimestamp_refused {ms : Int64} (h : lastInstant ≤ ms.toInt) : utcTimestamp ms =
    refuse "model timestamps require exact second-precision UTC" := by
  unfold lastInstant at h
  obtain ⟨year, month, day, hour, minute, second, ⟨hyear, hmonth, hday⟩, hhour, hminute, hsecond, hms,
    heq⟩ := @utcTimestamp_eq ms (by omega)
  have hlast : 10000 ≤ year := by
    by_contra hlt
    have hbefore := @daysFromCivil_lt year month day 10000 1 1 hmonth hday.2 (by decide) (by decide)
      (Or.inl (by omega))
    have hstart : daysFromCivil 10000 1 1 = 2932897 := by decide
    omega
  rw [heq, timestamp_refused (length_utcText hlast)]
  rfl

/-- An accepted text has one value, and a value one accepted text. -/
theorem timestamp_injective {a b : String} {v : Int} (ha : timestamp a = .ok v)
    (hb : timestamp b = .ok v) : a = b := by
  obtain ⟨d, rfl, hd⟩ := timestamp_eq_ok.mp ha
  obtain ⟨e, rfl, he⟩ := timestamp_eq_ok.mp hb
  rw [DateTime.instant_injective (hd.trans he.symm)]

theorem timestamp_lt_iff {a b : String} {v w : Int} (ha : timestamp a = .ok v)
    (hb : timestamp b = .ok w) : a < b ↔ v < w := by
  obtain ⟨d, rfl, rfl⟩ := timestamp_eq_ok.mp ha
  obtain ⟨e, rfl, rfl⟩ := timestamp_eq_ok.mp hb
  rw [DateTime.text_lt_iff, DateTime.instant_lt_iff]

/-- An accepted value is a whole number of seconds before the year 10000. -/
theorem DateTime.instant_lt_last (d : DateTime) :
    d.instant < lastInstant ∧ d.instant % 1000 = 0 := by
  have hm := d.months
  have ht := d.times
  have hy := d.years
  have hbefore := @daysFromCivil_lt d.year d.month d.day 10000 1 1 (by omega) d.day_le (by decide)
    (by decide) (Or.inl (by omega))
  have hstart : daysFromCivil 10000 1 1 = 2932897 := by decide
  unfold instant lastInstant
  omega

/-- **UTC text conversion is exact.** -/
theorem utc_text_exact :
    (∀ ms : Int64, 0 ≤ ms.toInt → ms.toInt < lastInstant →
      ∃ text, utcTimestamp ms = .ok text ∧ timestamp text = .ok (ms.toInt - ms.toInt % 1000)) ∧
    (∀ ms : Int64, lastInstant ≤ ms.toInt →
      utcTimestamp ms = refuse "model timestamps require exact second-precision UTC") ∧
    (∀ (text : String) (v : Int), timestamp text = .ok v → 0 ≤ v →
      (Int64.ofInt v).toInt = v ∧ utcTimestamp (Int64.ofInt v) = .ok text) ∧
    (∀ text : String, (∃ v, timestamp text = .ok v) ↔ ∃ d : DateTime, text = d.text) ∧
    ∀ (a b : String) (v w : Int), timestamp a = .ok v → timestamp b = .ok w → (a < b ↔ v < w) := by
  refine ⟨fun ms h0 hlast => utcTimestamp_eq_ok ⟨h0, hlast⟩, fun ms h => utcTimestamp_refused h,
    fun text v h h0 => ?_, fun text => ?_, fun a b v w ha hb => timestamp_lt_iff ha hb⟩
  · obtain ⟨d, -, rfl⟩ := timestamp_eq_ok.mp h
    obtain ⟨hlast, hsecond⟩ := d.instant_lt_last
    have hint : (Int64.ofInt d.instant).toInt = d.instant := by
      unfold lastInstant at hlast
      exact Int64.toInt_ofInt_of_le (by omega) (by omega)
    refine ⟨hint, ?_⟩
    obtain ⟨text', hwrite, hread⟩ := @utcTimestamp_eq_ok (Int64.ofInt d.instant)
      ⟨by rw [hint]; exact h0, by rw [hint]; exact hlast⟩
    rw [hint, hsecond, Int.sub_zero] at hread
    rw [hwrite, timestamp_injective hread h]
  · constructor
    · rintro ⟨v, h⟩
      obtain ⟨d, rfl, -⟩ := timestamp_eq_ok.mp h
      exact ⟨d, rfl⟩
    · rintro ⟨d, rfl⟩
      exact ⟨d.instant, timestamp_eq_ok.mpr ⟨d, rfl, rfl⟩⟩

end LumaOS.Governance
