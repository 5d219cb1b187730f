import LumaOS.Text.Digits

/-!
# Datetimes of the UTC time zone

A Python `datetime` whose `tzinfo` is UTC is its calendar fields: they order it and they print it.
`Datetime` is one of the years 1 to 9999, the only ones there are.
-/

namespace LumaOS.Text

/-- The days of a month of the Gregorian calendar. -/
def daysIn (year month : Nat) : Nat :=
  if month = 2 then if year % 4 = 0 ∧ (year % 100 ≠ 0 ∨ year % 400 = 0) then 29 else 28
  else if month ∈ [4, 6, 9, 11] then 30 else 31

/-- A `datetime` in UTC. -/
structure Datetime where
  year : Nat
  month : Nat
  day : Nat
  hour : Nat
  minute : Nat
  second : Nat
  microsecond : Nat
  years : 1 ≤ year ∧ year ≤ 9999
  months : 1 ≤ month ∧ month ≤ 12
  days : 1 ≤ day ∧ day ≤ daysIn year month
  times : hour ≤ 23 ∧ minute ≤ 59 ∧ second ≤ 59 ∧ microsecond ≤ 999999
deriving DecidableEq, Repr

namespace Datetime

/-- The microseconds on a calendar whose months all have 32 days: as great as the datetime is late. -/
def rank (d : Datetime) : Nat :=
  (((((d.year * 13 + d.month) * 32 + d.day) * 24 + d.hour) * 60 + d.minute) * 60 + d.second) *
    1000000 + d.microsecond

instance instLT : LT Datetime := ⟨fun a b => a.rank < b.rank⟩

instance instLE : LE Datetime := ⟨fun a b => a.rank ≤ b.rank⟩

instance decidableLT : DecidableLT Datetime := fun a b => inferInstanceAs (Decidable (a.rank < b.rank))

instance decidableLE : DecidableLE Datetime := fun a b => inferInstanceAs (Decidable (a.rank ≤ b.rank))

theorem not_le {a b : Datetime} : ¬a ≤ b ↔ b < a := Nat.not_le

theorem not_lt {a b : Datetime} : ¬a < b ↔ b ≤ a := Nat.not_lt

/-- `YYYY-MM-DDTHH:MM:SS`. -/
def seconds (d : Datetime) : List Char :=
  digits 4 d.year ++ '-' :: (digits 2 d.month ++ '-' :: (digits 2 d.day ++ 'T' ::
    (digits 2 d.hour ++ ':' :: (digits 2 d.minute ++ ':' :: digits 2 d.second))))

/-- `d.isoformat()`. -/
def isoformat (d : Datetime) : String :=
  String.ofList (d.seconds ++ (if d.microsecond = 0 then [] else '.' :: digits 6 d.microsecond)) ++
    "+00:00"

end Datetime

end LumaOS.Text
