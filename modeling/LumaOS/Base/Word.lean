import LumaOS.Base.Fallible

/-!
# Checked machine integers

`u64` is `UInt64`. `u64Add` is `checked_add`, whose `none` the source turns into `Err`; the plain
`+` panics on overflow (`overflow-checks = true` in the release profile), so it is
`expect (u64Add a b) overflow`. Both are exact when they return (`u64Add_eq_some`), and neither
wraps. `i64` is `Int`; only its `checked_sub` can leave the range.
-/

namespace LumaOS.Base

/-- `a.checked_add(b)` on `u64`. -/
def u64Add (a b : UInt64) : Option UInt64 :=
  if a.toNat + b.toNat < 2 ^ 64 then some (a + b) else none

/-- `a.checked_sub(b)` on `u64`. -/
def u64Sub (a b : UInt64) : Option UInt64 := if b ≤ a then some (a - b) else none

/-- `a.max(b)` on `u64`. -/
def u64Larger (a b : UInt64) : UInt64 := if a ≤ b then b else a

/-- `u64::MAX`. -/
def u64Max : UInt64 := 0xffffffffffffffff

/-- `i64::MAX as u64`. -/
def i64Max : UInt64 := 0x7fffffffffffffff

/-- `a.checked_sub(b)` on `i64`. -/
def i64Sub (a b : Int) : Option Int :=
  if -2 ^ 63 ≤ a - b ∧ a - b < 2 ^ 63 then some (a - b) else none

/-- `a.checked_add(b)` on `i64`. -/
def i64Add (a b : Int) : Option Int :=
  if -2 ^ 63 ≤ a + b ∧ a + b < 2 ^ 63 then some (a + b) else none

/-- `i64::try_from(n)` of an unsigned integer. -/
def i64OfNat (n : Nat) : Option Int := if n < 2 ^ 63 then some n else none

/-- What a failed conversion between integer types says. -/
def outOfRange : String := "out of range integral type conversion attempted"

/-- What a panicking subtraction says. -/
def underflow : String := "attempt to subtract with overflow"

/-- What a panicking addition says. -/
def overflow : String := "attempt to add with overflow"

variable {a b v : UInt64}

theorem u64Add_eq_some : u64Add a b = some v ↔ v.toNat = a.toNat + b.toNat := by
  unfold u64Add
  constructor
  · intro h
    split at h
    · rename_i hlt
      cases h
      rw [UInt64.toNat_add, Nat.mod_eq_of_lt hlt]
    · cases h
  · intro h
    have hlt : a.toNat + b.toNat < 2 ^ 64 := h ▸ v.toNat_lt
    rw [if_pos hlt]
    refine congrArg some (UInt64.toNat_inj.mp ?_)
    rw [UInt64.toNat_add, Nat.mod_eq_of_lt hlt, h]

theorem u64Add_one (h : a ≠ u64Max) : ∃ v, u64Add a 1 = some v ∧ v.toNat = a.toNat + 1 := by
  have hne : a.toNat ≠ u64Max.toNat := fun he => h (UInt64.toNat_inj.mp he)
  have hlt : a.toNat + (1 : UInt64).toNat < 2 ^ 64 := by
    have := a.toNat_lt
    rw [show u64Max.toNat = 2 ^ 64 - 1 from rfl] at hne
    rw [show (1 : UInt64).toNat = 1 from rfl]
    omega
  refine ⟨a + 1, if_pos hlt, ?_⟩
  rw [UInt64.toNat_add, Nat.mod_eq_of_lt hlt]
  rfl

theorem u64Sub_eq_some : u64Sub a b = some v ↔ b ≤ a ∧ v = a - b := by
  unfold u64Sub
  split
  · rename_i h
    rw [Option.some.injEq]
    exact ⟨fun hv => ⟨h, hv.symm⟩, fun hv => hv.2.symm⟩
  · rename_i h
    exact ⟨fun hv => (by cases hv), fun hv => absurd hv.1 h⟩

theorem i64Add_eq_some {x y z : Int} :
    i64Add x y = some z ↔ (-2 ^ 63 ≤ z ∧ z < 2 ^ 63) ∧ z = x + y := by
  unfold i64Add
  split
  · rename_i h
    rw [Option.some.injEq]
    exact ⟨fun hz => hz ▸ ⟨h, rfl⟩, fun hz => hz.2.symm⟩
  · rename_i h
    exact ⟨fun hz => (by cases hz), fun hz => absurd (hz.2 ▸ hz.1) h⟩

theorem i64Sub_eq_some {x y z : Int} :
    i64Sub x y = some z ↔ (-2 ^ 63 ≤ z ∧ z < 2 ^ 63) ∧ z = x - y := i64Add_eq_some

theorem u64Larger_lt : u64Larger a b < v ↔ a < v ∧ b < v := by
  unfold u64Larger
  simp only [UInt64.lt_iff_toNat_lt, UInt64.le_iff_toNat_le]
  split
  · omega
  · omega

end LumaOS.Base
